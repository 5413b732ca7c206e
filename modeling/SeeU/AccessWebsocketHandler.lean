import SeeU.UserConnectionMgr

set_option autoImplicit false

/-!
# `AccessWebsocketHandler`

The `X-Real-IP` of a handshake is recorded under the remote address of the connection.
`channelInactive` tells the connection manager, and leaves the record where it is.
-/
namespace SeeU.AccessWebsocketHandler
open TransitionSystem KeyedIndex UserConnectionMgr

/-! ### The handler -/

/-- `hostAddress` is `getAddress().getHostAddress()`. -/
structure SocketAddress where
  toString : String
  hostAddress : String
  deriving DecidableEq

structure HttpHeaders where
  get : String → Option String

/-- The two elements of a recorded list, of which the second may be null. -/
structure UsefulHeaders where
  realIp : String
  agent : Option String
  deriving DecidableEq

/-- An open connection, with the headers of its handshake once that is complete. -/
structure Connection where
  remoteAddress : SocketAddress
  requestHeaders : Option HttpHeaders

/-- Two open connections never have one remote address, so the open ones are told apart
    by it. -/
structure State where
  httpHeaderMap : String → Option UsefulHeaders
  userConnectionMgr : Mgr
  connections : Address → Option Connection

namespace State

def recordHttpUsefulHeaders (s : State) (remoteAddress : SocketAddress)
    (httpHeaders : HttpHeaders) : State :=
  match httpHeaders.get "X-Real-IP" with
  | none => s
  | some realIp =>
    { s with
      httpHeaderMap := put s.httpHeaderMap remoteAddress.toString
        ⟨realIp,httpHeaders.get "User-Agent"⟩ }

def getIp (s : State) (address : SocketAddress) : String :=
  match s.httpHeaderMap address.toString with
  | none => address.hostAddress
  | some list => list.realIp

def channelInactive (s : State) (remoteAddress : SocketAddress) : State :=
  { s with
    userConnectionMgr := (s.userConnectionMgr.delUserInfo ⟨remoteAddress.toString,false⟩).2 }

end State

/-! ### Runs -/

/-- `handshakeComplete` is the event of `userEventTriggered`. -/
inductive Action where
  | channelActive (remoteAddress : SocketAddress)
  | handshakeComplete (a : Address) (requestHeaders : HttpHeaders)
  | channelInactive (a : Address)

/-- A remote address is used again only after its connection has closed. -/
def step (s : State) : Action → Option State
  | .channelActive remoteAddress =>
    match s.connections remoteAddress.toString with
    | some _ => none
    | none =>
      some { s with
        connections := put s.connections remoteAddress.toString ⟨remoteAddress,none⟩ }
  | .handshakeComplete a requestHeaders =>
    match s.connections a with
    | some ⟨remoteAddress,none⟩ =>
      some ({ s with
        connections := put s.connections a ⟨remoteAddress,some requestHeaders⟩
          }.recordHttpUsefulHeaders remoteAddress requestHeaders)
    | _ => none
  | .channelInactive a =>
    match s.connections a with
    | some conn =>
      some ({ s with connections := remove s.connections a }.channelInactive conn.remoteAddress)
    | none => none

def start (userConnectionMgr : Mgr) : State := ⟨fun _ => none,userConnectionMgr,fun _ => none⟩

def machine (mgr : Mgr) : Machine State Action := ⟨start mgr,step⟩

/-- The `X-Real-IP` of the connection's own handshake. -/
def Connection.realIp (conn : Connection) : Option String :=
  conn.requestHeaders.bind (fun httpHeaders => httpHeaders.get "X-Real-IP")

def Attributed (s : State) : Prop :=
  ∀ a conn, s.connections a = some conn →
    s.getIp conn.remoteAddress = conn.realIp.getD conn.remoteAddress.hostAddress

/-- Every open connection has its own IP, and only open ones have a record. -/
structure PerConnection (s : State) : Prop where
  attributed : Attributed s
  onlyOpen : ∀ a, s.httpHeaderMap a ≠ none → s.connections a ≠ none

/-- The connection that closes had no `X-Real-IP`. -/
def ClosesUnrecorded (s : State) : Action → Prop
  | .channelInactive a => ∀ conn, s.connections a = some conn → conn.realIp = none
  | _ => True

/-- No other IP than its own is recorded for a new connection. -/
def OpensUnrecorded (s : State) : Action → Prop
  | .channelActive remoteAddress => ∀ list, s.httpHeaderMap remoteAddress.toString = some list →
      list.realIp = remoteAddress.hostAddress
  | _ => True

/-! ### What each step can do -/

inductive Step (s : State) : Action → State → Prop where
  | channelActive {remoteAddress : SocketAddress}
      (free : s.connections remoteAddress.toString = none) : Step s (.channelActive remoteAddress)
        { s with connections := put s.connections remoteAddress.toString ⟨remoteAddress,none⟩ }
  | handshakeComplete {a : Address} {remoteAddress : SocketAddress} {requestHeaders : HttpHeaders}
      (hc : s.connections a = some ⟨remoteAddress,none⟩) :
      Step s (.handshakeComplete a requestHeaders)
        ({ s with
          connections := put s.connections a ⟨remoteAddress,some requestHeaders⟩
            }.recordHttpUsefulHeaders remoteAddress requestHeaders)
  | channelInactive {a : Address} {conn : Connection} (hc : s.connections a = some conn) :
      Step s (.channelInactive a)
        ({ s with connections := remove s.connections a }.channelInactive conn.remoteAddress)

theorem step_cases {s t : State} {a : Action} (h : step s a = some t) : Step s a t := by
  cases a with
  | channelActive remoteAddress =>
    simp only [step] at h
    split at h
    · cases h
    · cases h
      exact .channelActive ‹_›
  | handshakeComplete a requestHeaders =>
    simp only [step] at h
    split at h
    · cases h
      exact .handshakeComplete ‹_›
    · cases h
  | channelInactive a =>
    simp only [step] at h
    split at h
    · cases h
      exact .channelInactive ‹_›
    · cases h

section Records
variable {s : State} {remoteAddress : SocketAddress} {httpHeaders : HttpHeaders}

theorem record_connections :
    (s.recordHttpUsefulHeaders remoteAddress httpHeaders).connections = s.connections := by
  unfold State.recordHttpUsefulHeaders
  cases httpHeaders.get "X-Real-IP" <;> rfl

theorem record_of_ne {a : Address} (h : a ≠ remoteAddress.toString) :
    (s.recordHttpUsefulHeaders remoteAddress httpHeaders).httpHeaderMap a = s.httpHeaderMap a := by
  unfold State.recordHttpUsefulHeaders
  cases httpHeaders.get "X-Real-IP" with
  | none => rfl
  | some realIp => exact put_of_ne _ h

theorem record_self : ((s.recordHttpUsefulHeaders remoteAddress httpHeaders).httpHeaderMap
    remoteAddress.toString).map UsefulHeaders.realIp = (httpHeaders.get "X-Real-IP").or
      ((s.httpHeaderMap remoteAddress.toString).map UsefulHeaders.realIp) := by
  unfold State.recordHttpUsefulHeaders
  cases httpHeaders.get "X-Real-IP" with
  | none => rfl
  | some realIp =>
    dsimp only
    rw [put_self]
    rfl

theorem getIp_eq (s : State) (address : SocketAddress) : s.getIp address =
    ((s.httpHeaderMap address.toString).map UsefulHeaders.realIp).getD address.hostAddress := by
  unfold State.getIp
  cases s.httpHeaderMap address.toString <;> rfl

end Records

/-! ### Attribution -/

/-- The open connections are filed under their own addresses. -/
abbrev Keyed (s : State) : Prop := Filed s.connections (fun conn => conn.remoteAddress.toString)

section Steps
variable {s t : State} {a : Action}

theorem keyed_step (h : Keyed s) (hs : Step s a t) : Keyed t := by
  cases hs with
  | @channelActive remoteAddress free => exact h.put ⟨remoteAddress,none⟩
  | @handshakeComplete a remoteAddress requestHeaders hc =>
    rw [Keyed,record_connections]
    have own := h a _ hc
    have filed := h.put ⟨remoteAddress,some requestHeaders⟩
    dsimp only at own filed
    rw [own] at filed
    exact filed
  | channelInactive => exact h.remove _

theorem attributed_open_iff (h : Attributed s) (remoteAddress : SocketAddress) :
    Attributed { s with
      connections := put s.connections remoteAddress.toString ⟨remoteAddress,none⟩ } ↔
      OpensUnrecorded s (.channelActive remoteAddress) := by
  constructor
  · intro attributed list hl
    have own := attributed remoteAddress.toString ⟨remoteAddress,none⟩ (put_self ..)
    rw [getIp_eq] at own
    dsimp only at own
    rw [hl] at own
    exact own
  · intro guard a conn hc
    rcases put_eq_some hc with ⟨rfl,rfl⟩ | ⟨_,hc⟩
    · rw [getIp_eq]
      dsimp only
      cases hl : s.httpHeaderMap remoteAddress.toString with
      | none => rfl
      | some list => exact guard list hl
    · exact h a conn hc

/-- A handshake replaces what was recorded, if it has an `X-Real-IP` itself. -/
theorem attributed_handshake (keyed : Keyed s) (h : Attributed s)
    {remoteAddress : SocketAddress} (requestHeaders : HttpHeaders)
    (hc : s.connections remoteAddress.toString = some ⟨remoteAddress,none⟩) :
    Attributed ({ s with
      connections := put s.connections remoteAddress.toString ⟨remoteAddress,some requestHeaders⟩
        }.recordHttpUsefulHeaders remoteAddress requestHeaders) := by
  intro b conn hb
  rw [record_connections] at hb
  rcases put_eq_some hb with ⟨rfl,rfl⟩ | ⟨ne,hb⟩
  · have before := h _ _ hc
    rw [getIp_eq] at before ⊢
    dsimp only at before ⊢
    rw [record_self]
    change (((requestHeaders.get "X-Real-IP").or _).getD _) =
      (requestHeaders.get "X-Real-IP").getD _
    cases requestHeaders.get "X-Real-IP" with
    | none => exact before
    | some realIp => rfl
  · have own : conn.remoteAddress.toString = b := keyed b conn hb
    have other : conn.remoteAddress.toString ≠ remoteAddress.toString := by
      rw [own]
      exact ne
    rw [←h b conn hb,getIp_eq,getIp_eq,record_of_ne other]

theorem attributed_step_iff (keyed : Keyed s) (h : Attributed s) (hs : Step s a t) :
    Attributed t ↔ OpensUnrecorded s a := by
  cases hs with
  | @channelActive remoteAddress free => exact attributed_open_iff h remoteAddress
  | @handshakeComplete a remoteAddress requestHeaders hc =>
    have own : remoteAddress.toString = a := keyed a _ hc
    subst own
    exact iff_of_true (attributed_handshake keyed h requestHeaders hc) trivial
  | @channelInactive a conn hc =>
    refine iff_of_true ?_ trivial
    intro b conn' hb
    exact h b conn' (remove_eq_some hb).2

/-- Every recorded IP is that of the open connection's own handshake. -/
def Recorded (s : State) : Prop :=
  ∀ a, (s.httpHeaderMap a).map UsefulHeaders.realIp = (s.connections a).bind Connection.realIp

theorem Recorded.perConnection (keyed : Keyed s) (h : Recorded s) : PerConnection s := by
  constructor
  · intro a conn hc
    have own : conn.remoteAddress.toString = a := keyed a conn hc
    rw [getIp_eq,own,h a,hc]
    rfl
  · intro a present closed
    have recorded := h a
    rw [closed,Option.bind_none,Option.map_eq_none_iff] at recorded
    exact present recorded

theorem recorded_step (keyed : Keyed s) (h : Recorded s) (guard : ClosesUnrecorded s a)
    (hs : Step s a t) : Recorded t := by
  intro b
  cases hs with
  | @channelActive remoteAddress free =>
    dsimp only
    rw [h b]
    by_cases same : b = remoteAddress.toString
    · subst same
      rw [put_self,free]
      rfl
    · rw [put_of_ne _ same]
  | @handshakeComplete a remoteAddress requestHeaders hc =>
    have own : remoteAddress.toString = a := keyed a _ hc
    subst own
    rw [record_connections]
    by_cases same : b = remoteAddress.toString
    · subst same
      have before := h remoteAddress.toString
      rw [hc] at before
      rw [record_self]
      dsimp only
      rw [put_self,before]
      exact Option.or_none
    · rw [record_of_ne same]
      dsimp only
      rw [put_of_ne _ same]
      exact h b
  | @channelInactive a conn hc =>
    change (s.httpHeaderMap b).map UsefulHeaders.realIp = _
    rw [h b]
    by_cases same : b = a
    · subst same
      rw [hc]
      change conn.realIp = (remove s.connections b b).bind Connection.realIp
      rw [guard conn hc,remove_self]
      rfl
    · change _ = (remove s.connections a b).bind Connection.realIp
      rw [remove_of_ne same]

/-- The record of a connection that closes stays. -/
theorem closes_of_onlyOpen (h : Recorded s) (hs : Step s a t) (per : PerConnection t) :
    ClosesUnrecorded s a := by
  cases hs with
  | channelActive | handshakeComplete => trivial
  | @channelInactive a conn hc =>
    intro conn' hc'
    rw [hc] at hc'
    cases hc'
    have recorded := h a
    rw [hc] at recorded
    change _ = conn.realIp at recorded
    have gone : s.httpHeaderMap a = none := by
      by_contra present
      exact per.onlyOpen a present (remove_self ..)
    rw [←recorded,gone]
    rfl

end Steps

section Runs
variable {mgr : Mgr} {as : List Action} {s : State}

/-- Every open connection keeps its own IP, and closed ones leave no record, exactly if no
    connection closes whose handshake had an `X-Real-IP`. -/
theorem perConnection_iff (h : Run (machine mgr) (start mgr) as s) :
    Throughout (machine mgr) PerConnection (start mgr) as ↔
      Guarded (machine mgr) ClosesUnrecorded (start mgr) as := by
  refine h.always_iff_guarded (D := fun _ _ => True) (J := fun s => Keyed s ∧ Recorded s) ?_ ?_ ?_
    (Guarded.of_forall (fun _ _ _ => trivial) _) ⟨filed_none _,fun _ => rfl⟩
  · rintro s ⟨keyed,recorded⟩
    exact recorded.perConnection keyed
  · rintro s a t ⟨keyed,recorded⟩ _ guard hs
    exact ⟨keyed_step keyed (step_cases hs),recorded_step keyed recorded guard (step_cases hs)⟩
  · rintro s a t ⟨_,recorded⟩ _ hs per
    exact closes_of_onlyOpen recorded (step_cases hs) per

/-- The attribution alone goes wrong exactly when a connection opens at an address for
    which another IP is still recorded. -/
theorem attributed_iff (h : Run (machine mgr) (start mgr) as s) :
    Throughout (machine mgr) Attributed (start mgr) as ↔
      Guarded (machine mgr) OpensUnrecorded (start mgr) as := by
  refine h.always_iff_guarded (D := fun _ _ => True) (J := fun s => Keyed s ∧ Attributed s)
    (fun _ both => both.2) ?_ ?_ (Guarded.of_forall (fun _ _ _ => trivial) _)
    ⟨filed_none _,nofun⟩
  · rintro s a t ⟨keyed,attributed⟩ _ guard hs
    exact ⟨keyed_step keyed (step_cases hs),
      (attributed_step_iff keyed attributed (step_cases hs)).mpr guard⟩
  · rintro s a t ⟨keyed,attributed⟩ _ hs next
    exact (attributed_step_iff keyed attributed (step_cases hs)).mp next

end Runs

def proxy : SocketAddress := ⟨"/10.0.0.1:4001","10.0.0.1"⟩
def direct : SocketAddress := ⟨"/10.0.0.2:4002","10.0.0.2"⟩

/-- The headers of a request that came through the proxy. -/
def forwarded : HttpHeaders where
  get name := if name = "X-Real-IP" then some "203.0.113.7" else none

def noHeaders : HttpHeaders := ⟨fun _ => none⟩

/-- A direct connection comes and goes while a forwarded one stays open. -/
def directCloses : List Action :=
  [.channelActive proxy,.handshakeComplete proxy.toString forwarded,.channelActive direct,
    .handshakeComplete direct.toString noHeaders,.channelInactive direct.toString]

theorem direct_close_attributed :
    Throughout (machine UserConnectionMgr.start) PerConnection (start UserConnectionMgr.start)
      directCloses := by
  have run : Run (machine UserConnectionMgr.start) (start UserConnectionMgr.start) directCloses _ :=
    run_endOf (by decide)
  refine (perConnection_iff run).mpr ?_
  refine .cons rfl trivial (.cons rfl trivial (.cons rfl trivial (.cons rfl trivial
    (.cons rfl ?_ trivial))))
  intro conn hc
  cases hc
  rfl

/-- The address of a forwarded connection is used again by a direct one. -/
def addressReused : List Action :=
  [.channelActive proxy,.handshakeComplete proxy.toString forwarded,
    .channelInactive proxy.toString,.channelActive proxy,
    .handshakeComplete proxy.toString noHeaders]

theorem reused_address_misattributed :
    ∃ s, Run (machine UserConnectionMgr.start) (start UserConnectionMgr.start) addressReused s ∧
      s.connections proxy.toString = some ⟨proxy,some noHeaders⟩ ∧
      s.getIp proxy = "203.0.113.7" ∧ ¬PerConnection s := by
  refine ⟨_,run_endOf (by decide),rfl,rfl,?_⟩
  intro per
  have own := per.attributed proxy.toString ⟨proxy,some noHeaders⟩ rfl
  revert own
  decide

end SeeU.AccessWebsocketHandler
