import SeeU.DiscoverHealing
import Mathlib.Data.Set.Finite.Basic

set_option autoImplicit false

/-!
# `DiscoverClient.destroy`

The three steps of `destroy` among the steps of the connection. Nothing in the client
says that it is being destroyed, so only a connection of which nothing is left is shut
down for good.
-/
namespace SeeU.DiscoverLifecycle
open WireFormat TransitionSystem DoubleIndex RpcClientManger

/-! ### The steps of `destroy` -/

/-- The next step of `destroy`, or how it has ended. -/
inductive DestroyPhase where
  | write | close | remove | returned | threw
  deriving DecidableEq

/-- The worker group keeps running for a quiet period after `shutdownGracefully`. -/
inductive WorkerGroup where
  | running | shuttingDown | terminated
  deriving DecidableEq

structure Shutdown where
  client : State
  phase : DestroyPhase
  workerGroup : WorkerGroup

inductive DestroyAction where
  | client (a : Action)
  | write
  | close
  | remove
  | terminate

/-- The steps that the event loops of the worker group take. -/
def Action.onEventLoop : Action → Bool
  | connectSucceeds _ | operationComplete .. | lose _ | channelInactive _ => true
  | connectFails | attachListener _ | retry => false

namespace Shutdown

/-- A null channel ends the first step with an exception that is caught. -/
def write (s : Shutdown) : Shutdown :=
  match s.client.channel with
  | none => { s with phase := .close }
  | some c => { s with client := s.client.emit (.unregister (getChannelKey c)), phase := .close }

/-- `close` catches the exception of a null future, and then leaves the worker group as it
    is. The event loop closes the channel later, in a step `lose`. -/
def close (s : Shutdown) : Shutdown :=
  match s.client.future with
  | none => { s with phase := .remove }
  | some _ => { s with phase := .remove, workerGroup := .shuttingDown }

/-- `removeClient(this)`, outside the `try`. -/
def remove (s : Shutdown) : Shutdown :=
  match s.client.manger.removeClient discoverClient with
  | (.ok _,manger) => { s with client := { s.client with manger := manger }, phase := .returned }
  | (.error _,manger) => { s with client := { s.client with manger := manger }, phase := .threw }

end Shutdown

def destroyStep (s : Shutdown) : DestroyAction → Option Shutdown
  | .client a =>
    if s.workerGroup = .terminated ∧ a.onEventLoop then none
    else (step s.client a).map (fun t => { s with client := t })
  | .write => if s.phase = .write then some s.write else none
  | .close => if s.phase = .close then some s.close else none
  | .remove => if s.phase = .remove then some s.remove else none
  | .terminate =>
    if s.workerGroup = .shuttingDown then some { s with workerGroup := .terminated } else none

def destroy (s : State) : Shutdown := ⟨s,.write,.running⟩

def destroyMachine (s : State) : Machine Shutdown DestroyAction := ⟨destroy s,destroyStep⟩

/-! ### Shut down for good -/

def Event.Forbidden : Event → Prop
  | connection _ | register _ | nullDereference (.channelInactive _) => True
  | unregister _ | nullDereference (.operationComplete _) => False

/-- The state after `destroy` has been called in `s`. -/
structure ShutDown (s : State) (t : Shutdown) : Prop where
  returns : t.phase ≠ .threw
  quiet : ∀ e since, t.client.log = s.log ++ since → e ∈ since → ¬e.Forbidden
  removed : t.phase = .returned → (∀ u i, t.client.manger.client u i ≠ some discoverClient) ∧
    ∀ key, t.client.manger.rpcChannelClientMap key ≠ some discoverClient

/-- Whatever happens once `destroy` has been called in `s`. -/
def ShutsDown (s : State) : Prop :=
  ∀ as t, Run (destroyMachine s) (destroy s) as t → ShutDown s t

/-- No attempt is in flight, no timer is set, no channel is active and no callback is
    undelivered. -/
structure NothingLeft (s : State) : Prop where
  connecting : s.connecting = 0
  retries : s.retries = 0
  done : ∀ key st, s.channels key = some st →
    st.active = false ∧ st.listener = .ran ∧ st.notified = true

/-! ### Every reachable state -/

section Reached
variable {s t : State} {c : Channel} {a : Action}

def usedKeys (s : State) : Set String := {key | s.channels key ≠ none}

theorem usedKeys_setState (s : State) (c : Channel) (st : ChannelState) :
    usedKeys (s.setState c st) ⊆ insert (getChannelKey c) (usedKeys s) := by
  intro key used
  by_cases same : key = getChannelKey c
  · exact .inl same
  · refine .inr ?_
    change (s.setState c st).channels key ≠ none at used
    rw [setState_channels,if_neg same] at used
    exact used

theorem usedKeys_step (hs : Step s a t) : ∃ key, usedKeys t ⊆ insert key (usedKeys s) := by
  cases hs with
  | @connectSucceeds c => exact ⟨_,usedKeys_setState { s with connecting := _ } c _⟩
  | connectFails => exact ⟨"",Set.subset_insert _ _⟩
  | @attachListener c => exact ⟨_,usedKeys_setState { s with future := _ } c _⟩
  | @operationComplete c st remoteAddress =>
    refine ⟨getChannelKey c,?_⟩
    unfold usedKeys
    rw [(completed_operationComplete (s.setState c { st with listener := .ran }) c
      remoteAddress).channels]
    exact usedKeys_setState s c _
  | retry =>
    refine ⟨"",?_⟩
    unfold usedKeys
    rw [doConnect_channels]
    exact Set.subset_insert _ _
  | @lose c => exact ⟨_,usedKeys_setState s c _⟩
  | @channelInactive c =>
    refine ⟨getChannelKey c,?_⟩
    unfold usedKeys
    rw [(inactivated_channelInactive _ c).channels]
    exact usedKeys_setState s c _

theorem usedKeys_finite_step (hs : Step s a t) (fin : (usedKeys s).Finite) :
    (usedKeys t).Finite := by
  obtain ⟨key,sub⟩ := usedKeys_step hs
  exact (fin.insert key).subset sub

/-- The manager holds no client but under the target of the discover client. -/
def Slots (m : Manger) : Prop := ∀ u i client, m.client u i = some client → (u,i) = (some .discover,0)

theorem slots_addClient {m : Manger} (target : Target m) (h : Slots m) :
    Slots (m.addClient discoverClient).2 := by
  intro u i client hc
  have slot : (m.addClient discoverClient).2.index.bySlot (u,i) =
      Function.update m.index.bySlot (some .discover,0) (some discoverClient) (u,i) := by
    rw [Manger.addClient_index,setBoth,target.slot]
    cases m.labels.key discoverClient <;> rfl
  by_contra other
  rw [Function.update_of_ne other] at slot
  exact other (h u i client (slot.symm.trans hc))

theorem removeClient_slot {m : Manger} (target : Target m) (u : Option ServerType) (i : BitVec 32) :
    (m.removeClient discoverClient).2.client u i =
      if (u,i) = (some .discover,0) then none else m.client u i := by
  have slot : (m.removeClient discoverClient).2.index.bySlot (u,i) =
      Function.update m.index.bySlot (some .discover,0) none (u,i) := by
    rw [Manger.removeClient_index,setBoth,target.slot]
    cases m.labels.key discoverClient <;> rfl
  exact slot.trans (Function.update_apply ..)

theorem removeChannel_slot {m : Manger} {u : Option ServerType} {i : BitVec 32} {client : ClientId}
    (hc : (m.removeChannel c).2.client u i = some client) : m.client u i = some client := by
  change (m.removeChannel c).2.index.bySlot (u,i) = some client at hc
  rw [Manger.removeChannel_index] at hc
  cases found : m.rpcChannelClientMap (getChannelKey c) with
  | none =>
    rw [found] at hc
    exact hc
  | some other =>
    rw [found] at hc
    change Function.update m.index.bySlot _ none (u,i) = some client at hc
    rw [Function.update_apply] at hc
    split_ifs at hc
    exact hc

theorem slots_channelInactive (h : Slots s.manger) : Slots (s.channelInactive c).manger := by
  rw [(inactivated_channelInactive s c).manger]
  intro u i client hc
  exact h u i client (removeChannel_slot hc)

theorem slots_operationComplete (target : Target s.manger) (h : Slots s.manger)
    (remoteAddress : Bool) : Slots (s.operationComplete c remoteAddress).manger := by
  cases remoteAddress with
  | false =>
    rw [operationComplete_unknown]
    exact h
  | true =>
    rw [operationComplete_known]
    exact slots_addClient ((setChannelField_target s c).mpr target) h

structure Reached (s : State) : Prop where
  inv : Inv s
  slots : Slots s.manger
  used : (usedKeys s).Finite

theorem reached_step (h : Reached s) (hs : Step s a t) : Reached t := by
  refine ⟨inv_step h.inv hs,?_,usedKeys_finite_step hs h.used⟩
  cases hs with
  | connectSucceeds | connectFails | attachListener | lose => exact h.slots
  | operationComplete =>
    exact slots_operationComplete (s := s.setState _ _) h.inv.target h.slots _
  | retry =>
    rw [doConnect_manger]
    exact h.slots
  | channelInactive => exact slots_channelInactive (s := s.setState _ _) h.slots

theorem reached_run {host : Utf8String} {port : BitVec 32} {as : List Action}
    (h : Run (machine host port) (start host port) as s) : Reached s := by
  refine h.invariant (I := Reached) (fun _ _ _ reached hs => reached_step reached (step_cases hs))
    ⟨inv_start host port,nofun,?_⟩
  have none : usedKeys (start host port) = ∅ := by
    ext key
    simp [usedKeys,start]
  rw [none]
  exact Set.finite_empty

end Reached

/-! ### Connections of which something is left -/

/-- The steps of the connection alone. -/
inductive Leads : State → State → Prop where
  | refl (s : State) : Leads s s
  | next {s t u : State} {a : Action} (h : step s a = some t) (tail : Leads t u) : Leads s u

/-- What `destroy` should have ended can still happen. -/
def Reoffends (s : State) : Prop :=
  ∃ t since, Leads s t ∧ t.log = s.log ++ since ∧ ∃ e ∈ since, e.Forbidden

section Reoffends
variable {s t : State} {key : String} {st : ChannelState} {a : Action}

theorem log_step (hs : Step s a t) : ∃ es, t.log = s.log ++ es := by
  cases hs with
  | connectSucceeds => exact ⟨_,rfl⟩
  | connectFails | attachListener | lose => exact ⟨[],(List.append_nil _).symm⟩
  | @operationComplete c st remoteAddress =>
    obtain ⟨e,log⟩ := (completed_operationComplete (s.setState c { st with listener := .ran }) c
      remoteAddress).log
    exact ⟨[e],log⟩
  | retry => exact ⟨[],by rw [doConnect_log,List.append_nil]⟩
  | @channelInactive c st =>
    exact (inactivated_channelInactive (s.setState c { st with notified := true }) c).log

theorem Reoffends.of_step (hs : step s a = some t) (h : Reoffends t) : Reoffends s := by
  obtain ⟨u,since,leads,log,e,mem,bad⟩ := h
  obtain ⟨es,first⟩ := log_step (step_cases hs)
  refine ⟨u,es ++ since,.next hs leads,?_,e,List.mem_append_right _ mem,bad⟩
  rw [log,first,List.append_assoc]

theorem Reoffends.of_emit {e : Event} (hs : step s a = some t) (log : t.log = s.log ++ [e])
    (bad : e.Forbidden) : Reoffends s :=
  ⟨t,[e],.next hs (.refl t),log,e,List.mem_singleton_self e,bad⟩

theorem reoffends_of_connecting (pos : 0 < s.connecting) (used : (usedKeys s).Finite) :
    Reoffends s := by
  obtain ⟨key,fresh⟩ := Set.Finite.exists_notMem used
  have unused : s.channels (getChannelKey ⟨key,key⟩) = none := not_not.mp fresh
  exact .of_emit (a := .connectSucceeds ⟨key,key⟩) (e := .connection key)
    (if_pos ⟨pos,unused⟩) rfl trivial

theorem reoffends_of_trying (h : Trying s) (used : (usedKeys s).Finite) : Reoffends s := by
  by_cases pos : 0 < s.connecting
  · exact reoffends_of_connecting pos used
  · have one := h.one
    refine .of_step (a := .retry) (if_pos (by omega)) (reoffends_of_connecting ?_ ?_)
    · rw [doConnect_of_done (s := { s with retries := s.retries - 1 }) h.done]
      exact Nat.succ_pos _
    · unfold usedKeys
      rw [doConnect_channels]
      exact used

theorem reoffends_of_attached {c : Channel} (hs : s.channels (getChannelKey c) = some st)
    (hl : st.listener = .attached) : Reoffends s := by
  have enabled : step s (.operationComplete c true) =
      some ((s.setState c { st with listener := .ran }).operationComplete c true) := by
    simp [step,hs,hl]
  refine .of_emit (e := .register (getChannelKey c)) enabled ?_ trivial
  rw [operationComplete_known]
  rfl

theorem reoffends_of_opened (h : Opened s key st) : Reoffends s := by
  obtain ⟨c,rfl⟩ : ∃ c, getChannelKey c = key := ⟨⟨key,key⟩,rfl⟩
  cases hl : st.listener with
  | unattached =>
    have enabled : step s (.attachListener c) =
        some ({ s with future := some c }.setState c { st with listener := .attached }) := by
      simp [step,h.channel,hl]
    exact .of_step enabled (reoffends_of_attached (Function.update_self ..) rfl)
  | attached => exact reoffends_of_attached h.channel hl
  | ran => exact absurd hl h.listener

/-- Its `channelInactive` either connects again or dereferences null. -/
theorem reoffends_of_inactive (h : Running s key st) (held : Holds s.manger key ∨ Free s.manger)
    (inactive : st.active = false) (used : (usedKeys s).Finite) : Reoffends s := by
  obtain ⟨c,rfl⟩ : ∃ c, getChannelKey c = key := ⟨⟨key,key⟩,rfl⟩
  have enabled : step s (.channelInactive c) =
      some ((s.setState c { st with notified := true }).channelInactive c) := by
    simp [step,h.channel,inactive,h.notified]
  rcases held with holds | free
  · exact .of_step enabled (reoffends_of_trying (trying_channelInactive h holds inactive)
      (usedKeys_finite_step (step_cases enabled) used))
  · refine .of_emit (e := .nullDereference (.channelInactive (getChannelKey c))) enabled ?_ trivial
    rw [channelInactive_of_free (s := s.setState c _) free]
    rfl

theorem reoffends_of_running (h : Running s key st) (held : Holds s.manger key ∨ Free s.manger)
    (used : (usedKeys s).Finite) : Reoffends s := by
  obtain ⟨c,rfl⟩ : ∃ c, getChannelKey c = key := ⟨⟨key,key⟩,rfl⟩
  cases active : st.active with
  | false => exact reoffends_of_inactive h held active used
  | true =>
    have enabled : step s (.lose c) = some (s.setState c { st with active := false }) := by
      simp [step,h.channel,active]
    have lost : Running (s.setState c { st with active := false }) (getChannelKey c)
        { st with active := false } :=
      ⟨h.toLive.setState _,h.listener,h.notified,h.current⟩
    exact .of_step enabled (reoffends_of_inactive lost held rfl
      (usedKeys_finite_step (step_cases enabled) used))

/-- At every stage but the last something is left. -/
theorem Reached.reoffends (h : Reached s) (left : ¬NothingLeft s) : Reoffends s := by
  cases h.inv.stage with
  | trying trying => exact reoffends_of_trying trying h.used
  | opened key st opened => exact reoffends_of_opened opened
  | registered key st running holds => exact reoffends_of_running running (.inl holds) h.used
  | forgotten key st running free _ => exact reoffends_of_running running (.inr free) h.used
  | dead key dead =>
    have idle := dead.idle
    refine absurd ⟨by omega,by omega,?_⟩ left
    intro k st hs
    rw [dead.done k st hs]
    exact ⟨rfl,rfl,rfl⟩

theorem Leads.destroy (h : Leads s t) (u : State) (phase : DestroyPhase) :
    ∃ as, Run (destroyMachine u) ⟨s,phase,.running⟩ as ⟨t,phase,.running⟩ := by
  induction h with
  | refl s => exact ⟨[],.nil _⟩
  | @next s t v a hs _ ih =>
    obtain ⟨as,run⟩ := ih
    have enabled : (destroyMachine u).step ⟨s,phase,.running⟩ (.client a) =
        some ⟨t,phase,.running⟩ := by
      simp [destroyMachine,destroyStep,hs]
    exact ⟨.client a :: as,.cons enabled run⟩

theorem Reoffends.not_shutsDown (h : Reoffends s) : ¬ShutsDown s := by
  obtain ⟨t,since,leads,log,e,mem,bad⟩ := h
  obtain ⟨as,run⟩ := leads.destroy s .write
  intro shutsDown
  exact (shutsDown as _ run).quiet e since log mem bad

end Reoffends

/-! ### A connection of which nothing is left -/

/-- What stays true once `destroy` has been called in such a state `s`. -/
structure Over (s : State) (t : Shutdown) : Prop where
  idle : t.client.connecting + t.client.retries = 0
  done : ∀ k st, t.client.channels k = some st → st = finished
  target : Target t.client.manger
  slots : Slots t.client.manger
  current : ∃ c, t.client.channel = some c ∧
    (t.phase = .returned ∨ Free t.client.manger ∨ Holds t.client.manger (getChannelKey c))
  returns : t.phase ≠ .threw
  log : ∃ es, t.client.log = s.log ++ es ∧ ∀ e ∈ es, ¬e.Forbidden
  removed : t.phase = .returned → (∀ u i, t.client.manger.client u i ≠ some discoverClient) ∧
    ∀ key, t.client.manger.rpcChannelClientMap key ≠ some discoverClient

section Over
variable {u : State} {s t : Shutdown}

theorem no_step {s t : State} {a : Action} (idle : s.connecting + s.retries = 0)
    (done : ∀ k st, s.channels k = some st → st = finished) : ¬Step s a t := by
  intro hs
  cases hs with
  | connectSucceeds pos | connectFails pos | retry pos => omega
  | attachListener hs hl | operationComplete hs hl | lose hs hl =>
    rw [done _ _ hs] at hl
    cases hl
  | channelInactive hs _ hl =>
    rw [done _ _ hs] at hl
    cases hl

theorem Over.shutDown (h : Over u s) : ShutDown u s := by
  obtain ⟨es,log,quiet⟩ := h.log
  refine ⟨h.returns,?_,h.removed⟩
  intro e since eq mem
  rw [log,List.append_cancel_left_eq] at eq
  exact quiet e (eq ▸ mem)

theorem over_write (h : Over u s) (phase : s.phase = .write) : Over u s.write := by
  obtain ⟨c,hc,held⟩ := h.current
  obtain ⟨es,log,quiet⟩ := h.log
  have write : s.write =
      { s with client := s.client.emit (.unregister (getChannelKey c)), phase := .close } := by
    simp only [Shutdown.write,hc]
  rw [phase] at held
  rw [write]
  refine ⟨h.idle,h.done,h.target,h.slots,⟨c,hc,.inr (held.resolve_left nofun)⟩,nofun,
    ⟨es ++ [.unregister (getChannelKey c)],?_,?_⟩,nofun⟩
  · change s.client.log ++ _ = _
    rw [log,List.append_assoc]
  · intro e mem
    rcases List.mem_append.mp mem with old | new
    · exact quiet e old
    · rw [List.mem_singleton.mp new]
      exact not_false

theorem over_close (h : Over u s) (phase : s.phase = .close) : Over u s.close := by
  obtain ⟨c,hc,held⟩ := h.current
  rw [phase] at held
  have current := held.resolve_left nofun
  unfold Shutdown.close
  split
  · exact ⟨h.idle,h.done,h.target,h.slots,⟨c,hc,.inr current⟩,nofun,h.log,nofun⟩
  · exact ⟨h.idle,h.done,h.target,h.slots,⟨c,hc,.inr current⟩,nofun,h.log,nofun⟩

theorem removeClient_of_held {m : Manger} {c : Channel} (target : Target m) (slots : Slots m)
    (hc : (m.clients discoverClient).channel = some c)
    (held : Free m ∨ Holds m (getChannelKey c)) :
    (∃ client, (m.removeClient discoverClient).1 = .ok client) ∧
      (∀ u i, (m.removeClient discoverClient).2.client u i ≠ some discoverClient) ∧
      ∀ key, (m.removeClient discoverClient).2.rpcChannelClientMap key ≠ some discoverClient := by
  refine ⟨?_,?_,?_⟩
  · simp [Manger.removeClient,hc]
  · intro u i present
    rw [removeClient_slot target] at present
    split_ifs at present with slot
    exact slot (slots u i _ present)
  · intro key present
    have index := congrArg (fun x => x.byKey key) (Manger.removeClient_index m discoverClient)
    simp only [setBoth,Manger.labels,hc,Option.map_some,Option.elim_some] at index
    change (m.removeClient discoverClient).2.rpcChannelClientMap key =
      Function.update m.rpcChannelClientMap _ none key at index
    rw [index,Function.update_apply] at present
    split_ifs at present with same
    rcases held with free | holds
    · rw [free] at present
      cases present
    · exact same ((holds.keys _ _).mp present).1

theorem over_remove (h : Over u s) (phase : s.phase = .remove) : Over u s.remove := by
  obtain ⟨c,hc,held⟩ := h.current
  rw [phase] at held
  obtain ⟨⟨client,ok⟩,removed⟩ :=
    removeClient_of_held h.target h.slots hc (held.resolve_left nofun)
  have clients := Manger.removeClient_clients s.client.manger discoverClient
  have slot := removeClient_slot h.target
  unfold Shutdown.remove
  generalize s.client.manger.removeClient discoverClient = r at ok removed clients slot
  obtain ⟨result,manger⟩ := r
  cases ok
  refine ⟨h.idle,h.done,?_,?_,⟨c,?_,.inl rfl⟩,nofun,h.log,fun _ => removed⟩
  · unfold Target
    dsimp only
    rw [clients]
    exact h.target
  · intro u i client hc
    have old := (slot u i).symm.trans hc
    split_ifs at old
    exact h.slots u i client old
  · unfold State.channel
    dsimp only
    rw [clients]
    exact hc

theorem over_step {a : DestroyAction} (h : Over u s) (hs : destroyStep s a = some t) : Over u t := by
  cases a with
  | client a =>
    simp only [destroyStep] at hs
    split_ifs at hs
    obtain ⟨v,hu,_⟩ := Option.map_eq_some_iff.mp hs
    exact absurd (step_cases hu) (no_step h.idle h.done)
  | write =>
    simp only [destroyStep] at hs
    split_ifs at hs with phase
    cases hs
    exact over_write h phase
  | close =>
    simp only [destroyStep] at hs
    split_ifs at hs with phase
    cases hs
    exact over_close h phase
  | remove =>
    simp only [destroyStep] at hs
    split_ifs at hs with phase
    cases hs
    exact over_remove h phase
  | terminate =>
    simp only [destroyStep] at hs
    split_ifs at hs
    cases hs
    exact ⟨h.idle,h.done,h.target,h.slots,h.current,h.returns,h.log,h.removed⟩

end Over

/-- Before the first channel something is always left. -/
theorem Reached.over_destroy {s : State} (h : Reached s) (left : NothingLeft s) : Over s (destroy s) := by
  have done : ∀ k st, s.channels k = some st → st = finished := by
    intro k st hs
    obtain ⟨active,ran,notified⟩ := left.done k st hs
    obtain ⟨_,_,_⟩ := st
    cases active
    cases ran
    cases notified
    rfl
  have idle : s.connecting + s.retries = 0 := by
    rw [left.connecting,left.retries]
  have current : ∃ c, s.channel = some c ∧
      (Free s.manger ∨ Holds s.manger (getChannelKey c)) := by
    cases h.inv.stage with
    | trying trying =>
      have one := trying.one
      omega
    | opened key st opened =>
      refine absurd ?_ opened.listener
      rw [done key st opened.channel]
      rfl
    | registered key st running | forgotten key st running =>
      have notified := running.notified
      rw [done key st running.channel] at notified
      cases notified
    | dead key dead =>
      obtain ⟨c,hc,rfl⟩ := Option.map_eq_some_iff.mp dead.current
      exact ⟨c,hc,dead.held⟩
  obtain ⟨c,hc,held⟩ := current
  exact ⟨idle,done,h.inv.target,h.slots,⟨c,hc,.inr held⟩,nofun,⟨[],(List.append_nil _).symm,nofun⟩,
    nofun⟩

/-- `destroy` shuts a reachable connection down for good exactly if nothing of it is left. -/
theorem shutsDown_iff {host : Utf8String} {port : BitVec 32} {as : List Action} {s : State}
    (h : Run (machine host port) (start host port) as s) : ShutsDown s ↔ NothingLeft s := by
  have reached := reached_run h
  constructor
  · intro shutsDown
    by_contra left
    exact (reached.reoffends left).not_shutsDown shutsDown
  · intro left bs t run
    have ended : Over s t := run.invariant (I := Over s) (fun _ _ _ ended hs => over_step ended hs)
      (reached.over_destroy left)
    exact ended.shutDown

theorem dropped_client_shuts_down : ShutsDown droppedEnd :=
  (shutsDown_iff droppedAtOnce_run).mpr ⟨rfl,rfl,fun k st hs => by
    rw [droppedEnd_done k st hs]
    exact ⟨rfl,rfl,rfl⟩⟩

def connected : List Action :=
  [.connectSucceeds channelA,.attachListener channelA,.operationComplete channelA true]

def connectedEnd : State :=
  endOf (machine discoverHost 9000) (start discoverHost 9000) connected (by decide)

/-- The closed channel is reported before the client is removed. -/
def reportedFirst : List DestroyAction :=
  [.write,.close,.client (.lose channelA),.client (.channelInactive channelA),.remove,
    .client (.connectSucceeds channelB),.client (.attachListener channelB),
    .client (.operationComplete channelB true)]

def removedFirst : List DestroyAction :=
  [.write,.close,.remove,.client (.lose channelA),.client (.channelInactive channelA)]

/-- In one order the client connects and registers again after it was destroyed, in the
    other `channelInactive` dereferences null. -/
theorem destroyed_client_returns :
    Run (machine discoverHost 9000) (start discoverHost 9000) connected connectedEnd ∧
      (∃ t, Run (destroyMachine connectedEnd) (destroy connectedEnd) reportedFirst t ∧
        t.phase = .returned ∧ .register (getChannelKey channelB) ∈ t.client.log ∧
        t.client.manger.rpcChannelClientMap (getChannelKey channelB) = some discoverClient) ∧
      (∃ t, Run (destroyMachine connectedEnd) (destroy connectedEnd) removedFirst t ∧
        t.phase = .returned ∧
        .nullDereference (.channelInactive (getChannelKey channelA)) ∈ t.client.log) ∧
      ¬ShutsDown connectedEnd := by
  have reported : Run (destroyMachine connectedEnd) (destroy connectedEnd) reportedFirst _ :=
    run_endOf (by decide)
  refine ⟨run_endOf _,⟨_,reported,rfl,by decide,rfl⟩,⟨_,run_endOf (by decide),rfl,by decide⟩,?_⟩
  intro shutsDown
  exact ((shutsDown _ _ reported).removed rfl).2 (getChannelKey channelB) rfl

end SeeU.DiscoverLifecycle
