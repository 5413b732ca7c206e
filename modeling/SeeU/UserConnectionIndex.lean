import SeeU.UserConnectionIdentity

set_option autoImplicit false

/-!
# When the indexes of `UserConnectionMgr` go astray

A login and a reattachment change the uid of a record without moving its entry, and
`delUserInfo` removes by key whatever record is there. Both conditions are exact.
-/
namespace SeeU.UserConnectionMgr
open KeyedIndex TransitionSystem

/-! ### Entries under the present uid and device id -/

/-- Every entry of the two identity maps is under the present uid or device id of its
    record, so a message to a user goes to no other. -/
structure IndexCoherent (s : Mgr) : Prop where
  uid : ∀ u i, s.uid2InfoMap u = some i → s.uid i = u
  devId : ∀ d i, s.devId2InfoMap d = some i → s.devId i = d
  routed : ∀ u i, s.sendMsgByUid u = .sendMsg i → s.uid i = u

/-- The record is not filed under a uid that it is about to lose. -/
def LeavesNoUid (s : Mgr) : Action → Prop
  | .updateUserInfoCtx _ i => s.uid2InfoMap (s.uid i) = some i → s.uid i = 0
  | .login u i => s.uid2InfoMap (s.uid i) = some i → s.uid i = u
  | _ => True

theorem sendMsgByUid_eq {s : Mgr} {u : Uid} {i : InfoId} (h : s.sendMsgByUid u = .sendMsg i) :
    s.uid2InfoMap u = some i := by
  unfold Mgr.sendMsgByUid Mgr.getUserInfoByUid at h
  split_ifs at h
  split at h
  · cases h
  · cases h
    assumption

theorem devId_filed_step {s t : Mgr} {a : Action} (alloc : Allocated s)
    (h : Filed s.devId2InfoMap s.devId) (hs : Step s a t) : Filed t.devId2InfoMap t.devId := by
  cases hs with
  | found | noCtx | absent => exact h
  | create => exact create_devId_filed alloc h
  | delete => exact h.remove _
  | update =>
    intro d j hj
    rw [update_devId]
    exact h d j hj
  | login =>
    intro d j hj
    rw [login_devId]
    exact h d j hj

/-- A message by device id goes to a record of that device, in every run. -/
theorem sendMsgByDevId_routed {as : List Action} {s : Mgr} (h : Run machine start as s)
    {devId : DevId} {i : InfoId} (hs : s.sendMsgByDevId devId = .ok (.sendMsg i)) :
    s.devId i = devId := by
  have filed : Allocated s ∧ Filed s.devId2InfoMap s.devId := by
    refine h.invariant (I := fun s => Allocated s ∧ Filed s.devId2InfoMap s.devId) ?_
      ⟨fun j held => absurd held (not_held_start j),filed_none _⟩
    rintro s a t ⟨alloc,filed⟩ hs
    exact ⟨allocated_step alloc (step_cases hs),devId_filed_step alloc filed (step_cases hs)⟩
  unfold Mgr.sendMsgByDevId Mgr.getUserInfoByDevId at hs
  cases devId with
  | none => cases hs
  | some d =>
    dsimp only at hs
    split_ifs at hs
    · cases hs
    · cases hd : s.devId2InfoMap (some d) with
      | none =>
        rw [hd] at hs
        cases hs
      | some j =>
        rw [hd] at hs
        cases hs
        exact filed.2 (some d) i hd

theorem uid_filed_step_iff {s t : Mgr} {a : Action} (alloc : Allocated s)
    (h : Filed s.uid2InfoMap s.uid) (hs : Step s a t) :
    Filed t.uid2InfoMap t.uid ↔ LeavesNoUid s a := by
  cases hs with
  | found | noCtx | absent => exact iff_of_true h trivial
  | create => exact iff_of_true (create_uid_filed alloc h) trivial
  | delete => exact iff_of_true (h.remove _) trivial
  | @update ctx i =>
    have iff := filed_rekey_iff h (fun j ne => update_uid_of_ne s i ctx ne)
    rw [update_uid_self] at iff
    exact iff
  | @login u i =>
    have iff := filed_put_rekey_iff h (fun j ne => login_uid_of_ne s i u ne)
    rw [login_uid_self] at iff
    exact iff

/-- A run keeps the identity maps coherent exactly if every reattachment and every login
    is of a record that is not filed under a uid it loses. -/
theorem indexCoherent_iff {as : List Action} {s : Mgr} (h : Run machine start as s) :
    Throughout machine IndexCoherent start as ↔ Guarded machine LeavesNoUid start as := by
  refine h.always_iff_guarded (D := fun _ _ => True) (J := fun s => Allocated s ∧
    Filed s.devId2InfoMap s.devId ∧ Filed s.uid2InfoMap s.uid) ?_ ?_ ?_
    (Guarded.of_forall (fun _ _ _ => trivial) _)
    ⟨fun i held => absurd held (not_held_start i),filed_none _,filed_none _⟩
  · rintro s ⟨_,devIds,uids⟩
    exact ⟨uids,devIds,fun u i hi => uids u i (sendMsgByUid_eq hi)⟩
  · rintro s a t ⟨alloc,devIds,uids⟩ _ guard hs
    have hstep := step_cases hs
    exact ⟨allocated_step alloc hstep,devId_filed_step alloc devIds hstep,
      (uid_filed_step_iff alloc uids hstep).mpr guard⟩
  · rintro s a t ⟨alloc,_,uids⟩ _ hs coherent
    exact (uid_filed_step_iff alloc uids (step_cases hs)).mp coherent.uid

theorem same_login_coherent : Throughout machine IndexCoherent start
    [.addUserInfo 7 (some "dev") (some phone),.login 7 0,.delUserInfo phone] := by
  have run : Run machine start [.addUserInfo 7 (some "dev") (some phone),.login 7 0,
    .delUserInfo phone] _ := run_endOf (by decide)
  exact (indexCoherent_iff run).mpr (.cons rfl trivial (.cons rfl (fun _ => rfl)
    (.cons rfl trivial trivial)))

/-- User 7 connects, the device is reattached, and user 8 logs in on it: what is sent to
    user 7 then goes to user 8. -/
def reattachedLogin : List Action :=
  [.addUserInfo 7 (some "dev") (some phone),.updateUserInfoCtx tablet 0,.login 8 0]

theorem message_misrouted : ∃ s, Run machine start reattachedLogin s ∧
    s.sendMsgByUid 7 = .sendMsg 0 ∧ s.uid 0 = 8 ∧ ¬IndexCoherent s := by
  refine ⟨_,run_endOf (by decide),rfl,rfl,?_⟩
  intro coherent
  have wrong := coherent.uid 7 0 rfl
  revert wrong
  decide

/-! ### Disconnects that spare other users -/

/-- Whoever disconnects, the entries of the identity maps that point to another record
    than the returned one stay. -/
structure SparesOthers (s : Mgr) : Prop where
  uid : ∀ ctx u j, s.uid2InfoMap u = some j → (s.delUserInfo ctx).1 ≠ some j →
    (s.delUserInfo ctx).2.uid2InfoMap u = some j
  devId : ∀ ctx d j, s.devId2InfoMap d = some j → (s.delUserInfo ctx).1 ≠ some j →
    (s.delUserInfo ctx).2.devId2InfoMap d = some j

/-- No entry under a key of a connected record points to another record. -/
structure KeysOwn (s : Mgr) : Prop where
  uid : ∀ a i j, s.ctx2InfoMap a = some i → s.uid2InfoMap (s.uid i) = some j → j = i
  devId : ∀ a i j, s.ctx2InfoMap a = some i → s.devId2InfoMap (s.devId i) = some j → j = i

/-- Of an identity map `ix` a disconnect spares the entries of others exactly if no entry
    under a key of a connected record is one. -/
theorem spares_iff_own {K : Type} [DecidableEq K] {s : Mgr} (ix : Mgr → K → Option InfoId)
    (key : InfoId → K) (removed : ∀ i a, ix (s.removeInfo i a) = remove (ix s) (key i)) :
    (∀ ctx k j, ix s k = some j → (s.delUserInfo ctx).1 ≠ some j →
      ix (s.delUserInfo ctx).2 k = some j) ↔
    ∀ a i j, s.ctx2InfoMap a = some i → ix s (key i) = some j → j = i := by
  constructor
  · intro h a i j hi hj
    by_contra ne
    have found : s.delUserInfo ⟨a,false⟩ = (some i,s.removeInfo i a) := delUserInfo_some hi
    have kept := h ⟨a,false⟩ _ j hj (by rw [found]; simpa using Ne.symm ne)
    rw [found,removed] at kept
    exact (remove_eq_some kept).1 rfl
  · intro h ctx k j hj other
    cases hc : s.ctx2InfoMap ctx.remoteAddress with
    | none =>
      rw [delUserInfo_none hc]
      exact hj
    | some i =>
      rw [delUserInfo_some hc] at other ⊢
      rw [removed]
      refine (remove_of_ne ?_).trans hj
      rintro rfl
      rw [h _ i j hc hj] at other
      exact other rfl

theorem sparesOthers_iff {s : Mgr} : SparesOthers s ↔ KeysOwn s := by
  have uids := spares_iff_own Mgr.uid2InfoMap s.uid (fun _ _ => rfl)
  have devIds := spares_iff_own Mgr.devId2InfoMap s.devId (fun _ _ => rfl)
  constructor
  · intro h
    exact ⟨uids.mp h.uid,devIds.mp h.devId⟩
  · intro h
    exact ⟨uids.mpr h.uid,devIds.mpr h.devId⟩

/-- A record that is created takes no uid or device id of a record that stays connected,
    and if it has no uid, uid 0 has no entry; a record is reattached only if no other has
    its device id or is filed under uid 0; and a uid is logged in that no other connected
    record has. -/
def TakesNoKey (s : Mgr) : Action → Prop
  | .addUserInfo uid devId (some ctx) => s.findInfo uid devId = none →
      (∀ a i, s.ctx2InfoMap a = some i → (a = ctx.remoteAddress → ctx.isRemoved) →
        (uid ≠ 0 → s.uid i ≠ uid) ∧ (Usable devId → s.devId i ≠ devId)) ∧
      (uid = 0 → ctx.isRemoved = false → s.uid2InfoMap 0 = none)
  | .updateUserInfoCtx _ i => (∀ j, s.uid2InfoMap 0 = some j → j = i) ∧
      ∀ j, s.devId2InfoMap (s.devId i) = some j → j = i
  | .login u i => ∀ a k, s.ctx2InfoMap a = some k → s.uid k = u → k = i
  | _ => True

def DevIdsUsable (s : Mgr) : Prop := ∀ d i, s.devId2InfoMap d = some i → Usable d

theorem devIdsUsable_step {s t : Mgr} {a : Action} (h : DevIdsUsable s) (hs : Step s a t) :
    DevIdsUsable t := by
  intro d i hi
  cases hs with
  | found | noCtx | absent | update | login => exact h d i hi
  | create =>
    rcases ite_put_eq_some hi with ⟨usable,rfl,_⟩ | ⟨_,hi⟩
    · exact usable
    · exact h d i hi
  | delete => exact h d i (remove_eq_some hi).2

section Keys
variable {s : Mgr}

theorem create_connected {uid : Uid} {devId : DevId} {ctx : Ctx} {a : Address} {i : InfoId}
    (h : (s.createInfo uid devId ctx).ctx2InfoMap a = some i) :
    (ctx.isRemoved = false ∧ a = ctx.remoteAddress ∧ i = s.fresh) ∨
      ((a = ctx.remoteAddress → ctx.isRemoved) ∧ s.ctx2InfoMap a = some i) := by
  rcases ite_put_eq_some h with ⟨live,ha,hi⟩ | ⟨other,h⟩
  · exact .inl ⟨by simpa using live,ha,hi⟩
  · refine .inr ⟨fun ha => ?_,h⟩
    simpa [ha] using other

section Create
variable {uid : Uid} {devId : DevId} {ctx : Ctx}

/-- If the keys stay owned, the new record takes none from a connected record. -/
theorem KeysOwn.takesNoKey (alloc : Allocated s) :
    KeysOwn (s.createInfo uid devId ctx) → TakesNoKey s (.addUserInfo uid devId (some ctx)) := by
  intro own _
  constructor
  · intro a i hi stays
    have connected : (s.createInfo uid devId ctx).ctx2InfoMap a = some i :=
      ite_put_kept (fun live ha => by simp [stays ha] at live) hi
    have ne := alloc.ne_fresh (.inr (.inr ⟨a,hi⟩))
    constructor
    · intro known same
      refine ne (own.uid a i s.fresh connected ?_).symm
      rw [create_uid_of_ne s _ _ _ ne,same]
      exact ite_put_self known
    · intro known same
      refine ne (own.devId a i s.fresh connected ?_).symm
      rw [create_devId_of_ne s _ _ _ ne,same]
      exact ite_put_self known
  · intro zero live
    by_contra present
    obtain ⟨j,hj⟩ := Option.ne_none_iff_exists'.mp present
    have connected : (s.createInfo uid devId ctx).ctx2InfoMap ctx.remoteAddress =
        some s.fresh := ite_put_self (by simp [live])
    refine alloc.ne_fresh (.inl ⟨0,hj⟩) (own.uid _ _ j connected ?_)
    rw [create_uid_self]
    refine ite_put_kept (fun known => absurd zero known) ?_
    rw [zero]
    exact hj

theorem keysOwn_create (alloc : Allocated s) (usable : DevIdsUsable s) (h : KeysOwn s)
    (free : s.findInfo uid devId = none) :
    TakesNoKey s (.addUserInfo uid devId (some ctx)) → KeysOwn (s.createInfo uid devId ctx) := by
  intro guard
  obtain ⟨others,noUid⟩ := guard free
  constructor
  · intro a i j hi hj
    rcases create_connected hi with ⟨live,_,rfl⟩ | ⟨stays,hi⟩
    · rw [create_uid_self] at hj
      rcases ite_put_eq_some hj with ⟨_,_,e⟩ | ⟨none,hj⟩
      · exact e
      · by_cases zero : uid = 0
        · rw [zero,noUid zero live] at hj
          cases hj
        · exact absurd ⟨zero,rfl⟩ none
    · rw [create_uid_of_ne s _ _ _ (alloc.ne_fresh (.inr (.inr ⟨a,hi⟩)))] at hj
      rcases ite_put_eq_some hj with ⟨known,same,_⟩ | ⟨_,hj⟩
      · exact absurd same ((others a i hi stays).1 known)
      · exact h.uid a i j hi hj
  · intro a i j hi hj
    rcases create_connected hi with ⟨_,_,rfl⟩ | ⟨stays,hi⟩
    · rw [create_devId_self] at hj
      rcases ite_put_eq_some hj with ⟨_,_,e⟩ | ⟨none,hj⟩
      · exact e
      · exact absurd ⟨usable _ j hj,rfl⟩ none
    · rw [create_devId_of_ne s _ _ _ (alloc.ne_fresh (.inr (.inr ⟨a,hi⟩)))] at hj
      rcases ite_put_eq_some hj with ⟨known,same,_⟩ | ⟨_,hj⟩
      · exact absurd same ((others a i hi stays).2 known)
      · exact h.devId a i j hi hj

theorem create_keysOwn_iff (alloc : Allocated s) (usable : DevIdsUsable s) (h : KeysOwn s)
    (free : s.findInfo uid devId = none) :
    KeysOwn (s.createInfo uid devId ctx) ↔ TakesNoKey s (.addUserInfo uid devId (some ctx)) :=
  ⟨KeysOwn.takesNoKey alloc,keysOwn_create alloc usable h free⟩

end Create

theorem update_connected {ctx : Ctx} {a : Address} {i k : InfoId} (ne : k ≠ i)
    (h : (s.updateUserInfoCtx ctx i).ctx2InfoMap a = some k) : s.ctx2InfoMap a = some k := by
  rcases put_eq_some h with ⟨_,e⟩ | ⟨_,h⟩
  · exact absurd e ne
  · exact (remove_eq_some h).2

theorem update_keysOwn_iff {ctx : Ctx} {i : InfoId} (h : KeysOwn s) :
    KeysOwn (s.updateUserInfoCtx ctx i) ↔ TakesNoKey s (.updateUserInfoCtx ctx i) := by
  have connected : (s.updateUserInfoCtx ctx i).ctx2InfoMap ctx.remoteAddress = some i := put_self ..
  constructor
  · intro own
    exact ⟨fun j hj => own.uid _ i j connected (by rw [update_uid_self]; exact hj),
      fun j hj => own.devId _ i j connected (by rw [update_devId]; exact hj)⟩
  · rintro ⟨zero,device⟩
    constructor
    · intro a k j hk hj
      by_cases ki : k = i
      · subst ki
        rw [update_uid_self] at hj
        exact zero j hj
      · rw [update_uid_of_ne s i ctx ki] at hj
        exact h.uid a k j (update_connected ki hk) hj
    · intro a k j hk hj
      rw [update_devId] at hj
      by_cases ki : k = i
      · subst ki
        exact device j hj
      · exact h.devId a k j (update_connected ki hk) hj

theorem login_keysOwn_iff {u : Uid} {i : InfoId} (h : KeysOwn s) :
    KeysOwn (s.login u i) ↔ TakesNoKey s (.login u i) := by
  constructor
  · intro own a k hk same
    by_contra ne
    refine ne (own.uid a k i hk ?_).symm
    rw [login_uid_of_ne s i u ne,same]
    exact put_self ..
  · intro guard
    constructor
    · intro a k j hk hj
      by_cases ki : k = i
      · subst ki
        rw [login_uid_self] at hj
        rcases put_eq_some hj with ⟨_,e⟩ | ⟨ne,_⟩
        · exact e
        · exact absurd rfl ne
      · rw [login_uid_of_ne s i u ki] at hj
        rcases put_eq_some hj with ⟨same,_⟩ | ⟨_,hj⟩
        · exact absurd (guard a k hk same) ki
        · exact h.uid a k j hk hj
    · intro a k j hk hj
      rw [login_devId] at hj
      exact h.devId a k j hk hj

theorem keysOwn_step_iff {t : Mgr} {a : Action} (alloc : Allocated s) (usable : DevIdsUsable s)
    (h : KeysOwn s) (hs : Step s a t) : KeysOwn t ↔ TakesNoKey s a := by
  cases hs with
  | @found uid devId ctx info found =>
    refine iff_of_true h ?_
    cases ctx with
    | none => trivial
    | some ctx =>
      intro free
      rw [found] at free
      cases free
  | noCtx | absent => exact iff_of_true h trivial
  | create free => exact create_keysOwn_iff alloc usable h free
  | update => exact update_keysOwn_iff h
  | login => exact login_keysOwn_iff h
  | delete =>
    refine iff_of_true ⟨?_,?_⟩ trivial
    · intro b k j hk hj
      exact h.uid b k j (remove_eq_some hk).2 (remove_eq_some hj).2
    · intro b k j hk hj
      exact h.devId b k j (remove_eq_some hk).2 (remove_eq_some hj).2

end Keys

/-- In the states of a run every disconnect spares the other users exactly if no step
    takes over a key of a connected record. -/
theorem sparesOthers_run_iff {as : List Action} {s : Mgr} (h : Run machine start as s) :
    Throughout machine SparesOthers start as ↔ Guarded machine TakesNoKey start as := by
  refine h.always_iff_guarded (D := fun _ _ => True)
    (J := fun s => Allocated s ∧ DevIdsUsable s ∧ KeysOwn s) ?_ ?_ ?_
    (Guarded.of_forall (fun _ _ _ => trivial) _)
    ⟨fun i held => absurd held (not_held_start i),nofun,nofun,nofun⟩
  · rintro s ⟨_,_,own⟩
    exact sparesOthers_iff.mpr own
  · rintro s a t ⟨alloc,usable,own⟩ _ guard hs
    have hstep := step_cases hs
    exact ⟨allocated_step alloc hstep,devIdsUsable_step usable hstep,
      (keysOwn_step_iff alloc usable own hstep).mpr guard⟩
  · rintro s a t ⟨alloc,usable,own⟩ _ hs spares
    exact (keysOwn_step_iff alloc usable own (step_cases hs)).mp (sparesOthers_iff.mp spares)

/-- Two users log in, each on a device of its own. -/
def twoUsers : List Action :=
  [.addUserInfo 0 (some "dev") (some phone),.login 7 0,.addUserInfo 0 (some "tab") (some tablet),
    .login 8 1]

/-- When the first of them disconnects, the second is still found. -/
theorem two_users_spared : ∃ s, Run machine start twoUsers s ∧
    Throughout machine SparesOthers start twoUsers ∧ (s.delUserInfo phone).1 = some 0 ∧
      (s.delUserInfo phone).2.uid2InfoMap 8 = some 1 ∧
      (s.delUserInfo phone).2.devId2InfoMap (some "tab") = some 1 := by
  have run : Run machine start twoUsers _ := run_endOf (by decide)
  refine ⟨_,run,(sparesOthers_run_iff run).mpr ?_,rfl,rfl,rfl⟩
  refine .cons rfl ?_ (.cons rfl ?_ (.cons rfl ?_ (.cons rfl ?_ trivial)))
  · exact fun _ => ⟨nofun,fun _ _ => rfl⟩
  · intro a k hk _
    obtain ⟨_,rfl⟩ | ⟨_,hk⟩ := put_eq_some hk
    · rfl
    · cases hk
  · intro _
    refine ⟨?_,fun _ _ => rfl⟩
    intro a i hi _
    obtain ⟨_,rfl⟩ | ⟨_,hi⟩ := put_eq_some hi
    · exact ⟨fun known => absurd rfl known,fun _ => by decide⟩
    · cases hi
  · intro a k hk same
    obtain ⟨_,rfl⟩ | ⟨_,hk⟩ := put_eq_some hk
    · rfl
    obtain ⟨_,rfl⟩ | ⟨_,hk⟩ := put_eq_some hk
    · exact absurd same (by decide)
    · cases hk

/-- One user logs in on a second device before the first disconnects. -/
def secondDevice : List Action :=
  [.addUserInfo 0 (some "dev") (some phone),.login 7 0,.addUserInfo 0 (some "tab") (some tablet),
    .login 7 1]

theorem second_device_deregistered : ∃ s, Run machine start secondDevice s ∧
    (s.delUserInfo phone).1 = some 0 ∧ s.uid2InfoMap 7 = some 1 ∧
      (s.delUserInfo phone).2.uid2InfoMap 7 = none ∧ ¬SparesOthers s := by
  refine ⟨_,run_endOf (by decide),rfl,rfl,rfl,?_⟩
  intro spares
  have kept := spares.uid phone 7 1 rfl (by decide)
  cases kept

end SeeU.UserConnectionMgr
