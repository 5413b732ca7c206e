import SeeU.RpcClientRegistry

set_option autoImplicit false

/-!
# The connection to the discover service

`RpcBaseClient.doConnect` waits for an attempt to connect and then attaches a listener to
it, which the event loop runs. The event loop also delivers `channelInactive`, and nothing
orders the two. A run is any order of these callbacks, of the outcomes of the attempts and
of the retry timer.
-/
namespace SeeU.DiscoverLifecycle
open WireFormat TransitionSystem DoubleIndex RpcClientManger

/-! ### The state -/

/-- The listener that `doConnect` attaches to the future of an attempt. -/
inductive Listener where
  | unattached | attached | ran
  deriving DecidableEq

structure ChannelState where
  active : Bool
  listener : Listener
  /-- `channelInactive` has been delivered. -/
  notified : Bool
  deriving DecidableEq

inductive Callback where
  | operationComplete (key : String)
  | channelInactive (key : String)
  deriving DecidableEq

/-- What can be seen of the client. A callback that dereferences null ends there. -/
inductive Event where
  | connection (key : String)
  | register (key : String)
  | unregister (key : String)
  | nullDereference (callback : Callback)
  deriving DecidableEq

/-- `connecting` counts the calls of `doConnect` that wait for their attempt, `retries` the
    timers. Channels are told apart by their ids. -/
structure State where
  manger : Manger
  future : Option Channel
  connecting : ℕ
  retries : ℕ
  channels : String → Option ChannelState
  log : List Event

def discoverClient : ClientId := 0

inductive Action where
  | connectSucceeds (c : Channel)
  | connectFails
  | attachListener (c : Channel)
  /-- The address of a channel that is not connected may be null. -/
  | operationComplete (c : Channel) (remoteAddress : Bool)
  | retry
  | lose (c : Channel)
  | channelInactive (c : Channel)
  deriving DecidableEq

namespace State

def channel (s : State) : Option Channel := (s.manger.clients discoverClient).channel

def setChannelField (s : State) (c : Channel) : State :=
  { s with
    manger := { s.manger with
      clients := Function.update s.manger.clients discoverClient
        { s.manger.clients discoverClient with channel := some c } } }

def setState (s : State) (c : Channel) (st : ChannelState) : State :=
  { s with channels := Function.update s.channels (getChannelKey c) (some st) }

def emit (s : State) (e : Event) : State := { s with log := s.log ++ [e] }

/-- `channel != null && channel.isActive()`. -/
def isConnected (s : State) : Bool :=
  match s.channel with
  | none => false
  | some c => ((s.channels (getChannelKey c)).map ChannelState.active).getD false

def doConnect (s : State) : State :=
  if s.isConnected then s else { s with connecting := s.connecting + 1 }

/-- `DiscoverClient.clientActive`, which catches its exceptions. -/
def clientActive (s : State) : State :=
  match s.channel with
  | none => s
  | some c =>
    { s.emit (.register (getChannelKey c)) with manger := (s.manger.addClient discoverClient).2 }

/-- The listener of a successful attempt. -/
def operationComplete (s : State) (c : Channel) (remoteAddress : Bool) : State :=
  if remoteAddress then (s.setChannelField c).clientActive
  else (s.setChannelField c).emit (.nullDereference (.operationComplete (getChannelKey c)))

/-- `clientInactive` of any other client does nothing. -/
def clientInactive (s : State) (client : ClientId) : State :=
  if client = discoverClient then s.doConnect else s

/-- `RpcClientHandler.channelInactive`. -/
def channelInactive (s : State) (c : Channel) : State :=
  match s.manger.removeChannel c with
  | (none,manger) =>
    { s with manger := manger }.emit (.nullDereference (.channelInactive (getChannelKey c)))
  | (some client,manger) => { s with manger := manger }.clientInactive client

end State

def step (s : State) : Action → Option State
  | .connectSucceeds c =>
    if 0 < s.connecting ∧ s.channels (getChannelKey c) = none then
      some ({ s with connecting := s.connecting - 1 }.setState c ⟨true,.unattached,false⟩
        |>.emit (.connection (getChannelKey c)))
    else none
  | .connectFails =>
    if 0 < s.connecting then
      some { s with connecting := s.connecting - 1, retries := s.retries + 1 }
    else none
  | .attachListener c =>
    match s.channels (getChannelKey c) with
    | some st =>
      if st.listener = .unattached then
        some ({ s with future := some c }.setState c { st with listener := .attached })
      else none
    | none => none
  | .operationComplete c remoteAddress =>
    match s.channels (getChannelKey c) with
    | some st =>
      if st.listener = .attached ∧ (st.active = true → remoteAddress = true) then
        some ((s.setState c { st with listener := .ran }).operationComplete c remoteAddress)
      else none
    | none => none
  | .retry => if 0 < s.retries then some { s with retries := s.retries - 1 }.doConnect else none
  | .lose c =>
    match s.channels (getChannelKey c) with
    | some st => if st.active then some (s.setState c { st with active := false }) else none
    | none => none
  | .channelInactive c =>
    match s.channels (getChannelKey c) with
    | some st =>
      if st.active = false ∧ st.notified = false then
        some ((s.setState c { st with notified := true }).channelInactive c)
      else none
    | none => none

/-- `connect` has been called after `init` and waits for its first attempt. -/
def start (host : Utf8String) (port : BitVec 32) : State where
  manger := RpcClientManger.start (fun _ => ⟨some .discover,0,some host,port,none⟩) 1
  future := none
  connecting := 1
  retries := 0
  channels _ := none
  log := []

def machine (host : Utf8String) (port : BitVec 32) : Machine State Action := ⟨start host port,step⟩

/-! ### Healing -/

/-- No attempt is in flight, no timer is set and no callback is undelivered. -/
structure Quiescent (s : State) : Prop where
  connecting : s.connecting = 0
  retries : s.retries = 0
  delivered : ∀ key st, s.channels key = some st →
    st.listener = .ran ∧ (st.active = true ∨ st.notified = true)

def ActiveKey (s : State) (key : String) : Prop :=
  ∃ st, s.channels key = some st ∧ st.active = true

/-- The client has an active channel, both maps hold it, and they hold it under no key of
    a dead channel. -/
structure Registered (s : State) : Prop where
  connected : ∃ c, s.channel = some c ∧ ActiveKey s (getChannelKey c) ∧
    s.manger.client (some .discover) 0 = some discoverClient ∧
    s.manger.rpcChannelClientMap (getChannelKey c) = some discoverClient
  alive : ∀ key, s.manger.rpcChannelClientMap key = some discoverClient → ActiveKey s key

structure Healing (s : State) : Prop where
  noNull : ∀ callback, .nullDereference callback ∉ s.log
  registered : Quiescent s → Registered s

/-- The listener of a channel runs before its `channelInactive`, and at a time when the
    remote address is known. -/
def InOrder (s : State) : Action → Prop
  | .operationComplete _ remoteAddress => remoteAddress = true
  | .channelInactive c => ∃ st, s.channels (getChannelKey c) = some st ∧ st.listener = .ran
  | _ => True

/-! ### What each step can do -/

inductive Step (s : State) : Action → State → Prop where
  | connectSucceeds {c : Channel} (h : 0 < s.connecting)
      (fresh : s.channels (getChannelKey c) = none) : Step s (.connectSucceeds c)
        (({ s with connecting := s.connecting - 1 }.setState c ⟨true,.unattached,false⟩).emit
          (.connection (getChannelKey c)))
  | connectFails (h : 0 < s.connecting) : Step s .connectFails
      { s with connecting := s.connecting - 1, retries := s.retries + 1 }
  | attachListener {c : Channel} {st : ChannelState}
      (hs : s.channels (getChannelKey c) = some st) (hl : st.listener = .unattached) :
      Step s (.attachListener c)
        ({ s with future := some c }.setState c { st with listener := .attached })
  | operationComplete {c : Channel} {st : ChannelState} {remoteAddress : Bool}
      (hs : s.channels (getChannelKey c) = some st) (hl : st.listener = .attached)
      (known : st.active = true → remoteAddress = true) :
      Step s (.operationComplete c remoteAddress)
        ((s.setState c { st with listener := .ran }).operationComplete c remoteAddress)
  | retry (h : 0 < s.retries) : Step s .retry { s with retries := s.retries - 1 }.doConnect
  | lose {c : Channel} {st : ChannelState} (hs : s.channels (getChannelKey c) = some st)
      (active : st.active = true) : Step s (.lose c) (s.setState c { st with active := false })
  | channelInactive {c : Channel} {st : ChannelState}
      (hs : s.channels (getChannelKey c) = some st) (inactive : st.active = false)
      (first : st.notified = false) : Step s (.channelInactive c)
        ((s.setState c { st with notified := true }).channelInactive c)

theorem step_cases {s t : State} {a : Action} (h : step s a = some t) : Step s a t := by
  cases a with
  | connectSucceeds c =>
    simp only [step] at h
    split_ifs at h with guard
    cases h
    exact .connectSucceeds guard.1 guard.2
  | connectFails =>
    simp only [step] at h
    split_ifs at h with guard
    cases h
    exact .connectFails guard
  | attachListener c =>
    simp only [step] at h
    split at h
    · split_ifs at h with guard
      cases h
      exact .attachListener ‹_› guard
    · cases h
  | operationComplete c remoteAddress =>
    simp only [step] at h
    split at h
    · split_ifs at h with guard
      cases h
      exact .operationComplete ‹_› guard.1 guard.2
    · cases h
  | retry =>
    simp only [step] at h
    split_ifs at h with guard
    cases h
    exact .retry guard
  | lose c =>
    simp only [step] at h
    split at h
    · split_ifs at h with guard
      cases h
      exact .lose ‹_› guard
    · cases h
  | channelInactive c =>
    simp only [step] at h
    split at h
    · split_ifs at h with guard
      cases h
      exact .channelInactive ‹_› guard.1 guard.2
    · cases h

/-! ### The maps -/

/-- The maps hold no client by a channel. -/
def Free (m : Manger) : Prop := ∀ key, m.rpcChannelClientMap key = none

/-- The maps hold the discover client, and by one channel. -/
structure Holds (m : Manger) (key : String) : Prop where
  slot : m.client (some .discover) 0 = some discoverClient
  keys : ∀ k client, m.rpcChannelClientMap k = some client ↔ k = key ∧ client = discoverClient

/-- What `init` has set. -/
def Target (m : Manger) : Prop :=
  (m.clients discoverClient).targetType = some .discover ∧ (m.clients discoverClient).targetId = 0

section Maps
variable {m : Manger} {c : Channel}

theorem Target.slot (h : Target m) : m.labels.slot discoverClient = (some .discover,0) :=
  Prod.ext h.1 h.2

theorem addClient_holds (free : Free m) (target : Target m)
    (hc : (m.clients discoverClient).channel = some c) :
    Holds (m.addClient discoverClient).2 (getChannelKey c) := by
  have index : (m.addClient discoverClient).2.index =
      setKey (setSlot m.index (some .discover,0) (some discoverClient)) (getChannelKey c)
        (some discoverClient) := by
    rw [Manger.addClient_index,setBoth,target.slot]
    simp only [Manger.labels,hc,Option.map_some,Option.elim_some]
  constructor
  · have slot := congrArg (fun x => x.bySlot (some .discover,0)) index
    exact slot.trans (by simp [setKey,setSlot])
  · intro key client
    have keys := congrArg (fun x => x.byKey key) index
    change (m.addClient discoverClient).2.rpcChannelClientMap key =
      Function.update m.rpcChannelClientMap _ _ key at keys
    rw [keys,Function.update_apply]
    split_ifs with same
    · simp [same,eq_comm]
    · simp [same,free key]

theorem removeChannel_of_free (free : Free m) :
    (m.removeChannel c).1 = none ∧ Free (m.removeChannel c).2 := by
  unfold Manger.removeChannel
  rw [free]
  refine ⟨rfl,?_⟩
  intro key
  change Function.update m.rpcChannelClientMap _ none key = none
  rw [Function.update_apply,free,ite_self]

theorem removeChannel_of_holds (h : Holds m (getChannelKey c)) :
    (m.removeChannel c).1 = some discoverClient ∧ Free (m.removeChannel c).2 := by
  have found : m.rpcChannelClientMap (getChannelKey c) = some discoverClient :=
    (h.keys _ _).mpr ⟨rfl,rfl⟩
  unfold Manger.removeChannel
  rw [found]
  refine ⟨rfl,?_⟩
  intro key
  rw [Manger.setClient_channels]
  change Function.update m.rpcChannelClientMap _ none key = none
  rw [Function.update_apply]
  split_ifs with same
  · rfl
  · by_contra present
    obtain ⟨client,hk⟩ := Option.ne_none_iff_exists'.mp present
    exact same ((h.keys _ _).mp hk).1

end Maps

end SeeU.DiscoverLifecycle
