import SeeU.UserConnectionIndex

set_option autoImplicit false

/-!
# What a disconnect leaves in the maps of `UserConnectionMgr`

`delUserInfo` removes one record for an address, by the keys that the record has at
that time. Records that were displaced at the address and entries under a former uid
stay behind.
-/
namespace SeeU.UserConnectionMgr
open KeyedIndex TransitionSystem

/-- Whoever disconnects, no record of that address is left in any map. -/
def LeavesNoGhost (s : Mgr) : Prop :=
  ∀ ctx i, Held (s.delUserInfo ctx).2 i → (s.delUserInfo ctx).2.address i ≠ ctx.remoteAddress

/-- Connections are added while they are live, and only records in the maps are
    reattached or logged in. -/
def OfRegistered (s : Mgr) : Action → Prop
  | .addUserInfo _ _ ctx => ∀ c, ctx = some c → c.isRemoved = false
  | .updateUserInfoCtx _ i => Held s i
  | .login u i => u ≠ 0 ∧ Held s i
  | .delUserInfo _ => True

/-- A record is in one of the two identity maps. -/
def Identity (s : Mgr) (i : InfoId) : Prop :=
  (∃ u, s.uid2InfoMap u = some i) ∨ ∃ d, s.devId2InfoMap d = some i

theorem Identity.held {s : Mgr} {i : InfoId} (h : Identity s i) : Held s i := by
  rcases h with h | h
  · exact .inl h
  · exact .inr (.inl h)

/-- A connection is added or moved to an address where no other record of the identity
    maps is, and a record changes its uid only if it is filed under no other uid. -/
def FilesCleanly (s : Mgr) : Action → Prop
  | .addUserInfo uid devId (some ctx) => s.findInfo uid devId = none →
      ∀ j, Identity s j → s.address j ≠ ctx.remoteAddress
  | .updateUserInfoCtx ctx i => (∀ u, s.uid2InfoMap u ≠ some i) ∧
      ∀ j, j ≠ i → Identity s j → s.address j ≠ ctx.remoteAddress
  | .login u i => ∀ v, s.uid2InfoMap v = some i → v = u
  | _ => True

/-- Every record is in `ctx2InfoMap` at its own address and in the identity maps under
    its present keys only. -/
structure Accounted (s : Mgr) : Prop where
  allocated : Allocated s
  uids : Filed s.uid2InfoMap s.uid
  devIds : Filed s.devId2InfoMap s.devId
  addresses : Filed s.ctx2InfoMap s.address
  noUid : s.uid2InfoMap 0 = none
  usable : DevIdsUsable s
  connected : ∀ i, Identity s i → s.ctx2InfoMap (s.address i) = some i
  ownDevId : ∀ a i, s.ctx2InfoMap a = some i → Usable (s.devId i) →
    s.devId2InfoMap (s.devId i) = some i

theorem accounted_start : Accounted start where
  allocated i held := absurd held (not_held_start i)
  uids := filed_none _
  devIds := filed_none _
  addresses := filed_none _
  noUid := rfl
  usable _ _ h := by cases h
  connected i h := absurd h.held (not_held_start i)
  ownDevId _ _ h := by cases h

section Accounting
variable {s : Mgr}

theorem Accounted.at_address (h : Accounted s) {i : InfoId} (held : Held s i) :
    s.ctx2InfoMap (s.address i) = some i := by
  rcases held with hu | hd | ⟨a,ha⟩
  · exact h.connected i (.inl hu)
  · exact h.connected i (.inr hd)
  · rw [h.addresses a i ha]
    exact ha

theorem Accounted.uid_ne_zero (h : Accounted s) {u : Uid} {i : InfoId}
    (hu : s.uid2InfoMap u = some i) : u ≠ 0 := by
  rintro rfl
  rw [h.noUid] at hu
  cases hu

theorem Accounted.leavesNoGhost (h : Accounted s) : LeavesNoGhost s := by
  intro ctx i held here
  cases hc : s.ctx2InfoMap ctx.remoteAddress with
  | none =>
    rw [delUserInfo_none hc] at held here
    have there := h.at_address held
    rw [here,hc] at there
    cases there
  | some k =>
    rw [delUserInfo_some hc] at held here
    change s.address i = ctx.remoteAddress at here
    have there := h.at_address (held_of_remove held)
    rw [here,hc] at there
    cases there
    rcases held with ⟨u,hu⟩ | ⟨d,hd⟩ | ⟨a,ha⟩
    · exact h.uids.remove_ne i u hu
    · exact h.devIds.remove_ne i d hd
    · obtain ⟨ne,ha⟩ := remove_eq_some ha
      exact ne ((h.addresses a i ha).symm.trans here)

/-! ### The steps that file cleanly -/

theorem identity_of_create {uid : Uid} {devId : DevId} {ctx : Ctx} {j : InfoId}
    (h : Identity (s.createInfo uid devId ctx) j) : j = s.fresh ∨ Identity s j := by
  rcases h with ⟨u,h⟩ | ⟨d,h⟩
  · rcases ite_put_eq_some h with ⟨_,_,rfl⟩ | ⟨_,h⟩
    · exact .inl rfl
    · exact .inr (.inl ⟨u,h⟩)
  · rcases ite_put_eq_some h with ⟨_,_,rfl⟩ | ⟨_,h⟩
    · exact .inl rfl
    · exact .inr (.inr ⟨d,h⟩)

theorem Accounted.create (h : Accounted s) {uid : Uid} {devId : DevId} {ctx : Ctx}
    (live : ctx.isRemoved = false) (free : s.findInfo uid devId = none)
    (apart : ∀ j, Identity s j → s.address j ≠ ctx.remoteAddress) :
    Accounted (s.createInfo uid devId ctx) := by
  obtain ⟨_,noDevId⟩ := findInfo_eq_none free
  refine ⟨allocated_step h.allocated (.create free),create_uid_filed h.allocated h.uids,
    create_devId_filed h.allocated h.devIds,create_address_filed h.allocated h.addresses,
    create_noUid h.noUid,devIdsUsable_step h.usable (.create free),?_,?_⟩
  · intro j hj
    rcases identity_of_create hj with rfl | old
    · rw [create_address_self]
      exact ite_put_self (by simp [live])
    · rw [create_address_of_ne s _ _ _ (h.allocated.ne_fresh old.held)]
      exact ite_put_kept (fun _ => apart j old) (h.connected j old)
  · intro a j hj usable
    rcases create_connected hj with ⟨_,_,rfl⟩ | ⟨_,hj⟩
    · rw [create_devId_self] at usable ⊢
      exact ite_put_self usable
    · rw [create_devId_of_ne s _ _ _ (h.allocated.ne_fresh (.inr (.inr ⟨a,hj⟩)))] at usable ⊢
      exact ite_put_of_free noDevId (h.ownDevId a j hj usable)

theorem Accounted.update (h : Accounted s) {ctx : Ctx} {i : InfoId} (below : i < s.fresh)
    (held : Held s i) (noUids : ∀ u, s.uid2InfoMap u ≠ some i)
    (apart : ∀ j, j ≠ i → Identity s j → s.address j ≠ ctx.remoteAddress) :
    Accounted (s.updateUserInfoCtx ctx i) := by
  have step : Step s (.updateUserInfoCtx ctx i) (s.updateUserInfoCtx ctx i) := .update below
  refine ⟨allocated_step h.allocated step,
    (uid_filed_step_iff h.allocated h.uids step).mpr (fun hu => absurd hu (noUids _)),
    devId_filed_step h.allocated h.devIds step,address_filed_step h.allocated h.addresses step,
    h.noUid,devIdsUsable_step h.usable step,?_,?_⟩
  · intro j hj
    by_cases ji : j = i
    · subst ji
      rw [update_address_self]
      exact put_self ..
    · rw [update_address_of_ne s i ctx ji]
      -- another record at the old address would be the reattached one
      have elsewhere : s.address j ≠ s.address i := by
        intro same
        have there := h.connected j hj
        rw [same,h.at_address held] at there
        exact ji (Option.some.inj there).symm
      exact (put_of_ne i (apart j ji hj)).trans
        ((remove_of_ne elsewhere).trans (h.connected j hj))
  · intro a j hj usable
    rw [update_devId] at usable ⊢
    by_cases ji : j = i
    · subst ji
      exact h.ownDevId _ j (h.at_address held) usable
    · exact h.ownDevId a j (update_connected ji hj) usable

theorem Accounted.login (h : Accounted s) {u : Uid} {i : InfoId} (below : i < s.fresh)
    (known : u ≠ 0) (held : Held s i) (only : ∀ v, s.uid2InfoMap v = some i → v = u) :
    Accounted (s.login u i) := by
  have step : Step s (.login u i) (s.login u i) := .login below
  refine ⟨allocated_step h.allocated step,
    (uid_filed_step_iff h.allocated h.uids step).mpr (fun hu => only _ hu),
    devId_filed_step h.allocated h.devIds step,address_filed_step h.allocated h.addresses step,
    ?_,devIdsUsable_step h.usable step,?_,?_⟩
  · exact (put_of_ne i known.symm).trans h.noUid
  · intro j hj
    rw [login_address]
    refine h.at_address ?_
    rcases held_of_login hj.held with rfl | old
    · exact held
    · exact old
  · intro a j hj usable
    rw [login_devId] at usable ⊢
    exact h.ownDevId a j hj usable

theorem Accounted.remove (h : Accounted s) {i : InfoId} {a : Address}
    (hi : s.ctx2InfoMap a = some i) : Accounted (s.removeInfo i a) := by
  have own : ∀ {j}, Held s j → s.address j = a → j = i := by
    intro j held here
    have there := h.at_address held
    rw [here,hi] at there
    exact (Option.some.inj there).symm
  refine ⟨fun j hj => h.allocated j (held_of_remove hj),h.uids.remove _,h.devIds.remove _,
    h.addresses.remove _,?_,fun d j hj => h.usable d j (remove_eq_some hj).2,?_,?_⟩
  · by_contra present
    obtain ⟨j,hj⟩ := Option.ne_none_iff_exists'.mp present
    exact h.uid_ne_zero (remove_eq_some hj).2 rfl
  · intro j hj
    have held := held_of_remove hj.held
    refine (remove_of_ne ?_).trans (h.at_address held)
    intro here
    have ji := own held here
    subst ji
    rcases hj with ⟨u,hu⟩ | ⟨d,hd⟩
    · exact h.uids.remove_ne j u hu
    · exact h.devIds.remove_ne j d hd
  · intro b j left usable
    obtain ⟨ne,hj⟩ := remove_eq_some left
    have filed := h.ownDevId b j hj usable
    refine (remove_of_ne ?_).trans filed
    intro same
    change s.devId j = s.devId i at same
    have other := h.ownDevId a i hi (by rw [←same]; exact usable)
    rw [←same,filed] at other
    have ji : j = i := Option.some.inj other
    subst ji
    exact ne ((h.addresses b j hj).symm.trans (h.addresses a j hi))

theorem accounted_step {t : Mgr} {a : Action} (h : Accounted s) (domain : OfRegistered s a)
    (clean : FilesCleanly s a) (hs : Step s a t) : Accounted t := by
  cases hs with
  | found | noCtx | absent => exact h
  | create free => exact h.create (domain _ rfl) free (clean free)
  | update below => exact h.update below domain clean.1 clean.2
  | login below => exact h.login below domain.1 domain.2 clean
  | delete found => exact h.remove found

/-! ### The steps that do not leave a ghost -/

/-- A record that is left in an identity map under another key than those that are
    removed is a ghost of its address. -/
theorem LeavesNoGhost.no_identity {t : Mgr} (h : LeavesNoGhost t) {ctx : Ctx} {i j : InfoId}
    (hi : t.ctx2InfoMap ctx.remoteAddress = some i) (here : t.address j = ctx.remoteAddress) :
    (∀ u, u ≠ t.uid i → t.uid2InfoMap u ≠ some j) ∧
      ∀ d, d ≠ t.devId i → t.devId2InfoMap d ≠ some j := by
  have ghost := h ctx j
  rw [delUserInfo_some hi] at ghost
  constructor
  · intro u ne hu
    exact ghost (.inl ⟨u,(remove_of_ne ne).trans hu⟩) here
  · intro d ne hd
    exact ghost (.inr (.inl ⟨d,(remove_of_ne ne).trans hd⟩)) here

theorem create_clean {uid : Uid} {devId : DevId} {ctx : Ctx} (h : Accounted s)
    (live : ctx.isRemoved = false) (free : s.findInfo uid devId = none)
    (ghosts : LeavesNoGhost (s.createInfo uid devId ctx)) {j : InfoId} (hj : Identity s j) :
    s.address j ≠ ctx.remoteAddress := by
  intro here
  obtain ⟨noUid,noDevId⟩ := findInfo_eq_none free
  have connected : (s.createInfo uid devId ctx).ctx2InfoMap ctx.remoteAddress = some s.fresh :=
    ite_put_self (by simp [live])
  have none := ghosts.no_identity (j := j) connected (by
    rw [create_address_of_ne s _ _ _ (h.allocated.ne_fresh hj.held)]
    exact here)
  rw [create_uid_self,create_devId_self] at none
  rcases hj with ⟨u,hu⟩ | ⟨d,hd⟩
  · have ne : u ≠ uid := by
      rintro rfl
      rw [noUid (h.uid_ne_zero hu)] at hu
      cases hu
    exact none.1 u ne (ite_put_kept (fun _ => ne) hu)
  · have ne : d ≠ devId := by
      rintro rfl
      rw [noDevId (h.usable d j hd)] at hd
      cases hd
    exact none.2 d ne (ite_put_kept (fun _ => ne) hd)

theorem update_clean {ctx : Ctx} {i : InfoId} (h : Accounted s) (held : Held s i)
    (ghosts : LeavesNoGhost (s.updateUserInfoCtx ctx i)) :
    FilesCleanly s (.updateUserInfoCtx ctx i) := by
  have connected : (s.updateUserInfoCtx ctx i).ctx2InfoMap ctx.remoteAddress = some i := put_self ..
  constructor
  · intro u hu
    have none := ghosts.no_identity (j := i) connected (update_address_self ..)
    rw [update_uid_self] at none
    exact none.1 u (h.uid_ne_zero hu) hu
  · intro j ji hj here
    have none := ghosts.no_identity (j := j) connected (by
      rw [update_address_of_ne s i ctx ji]
      exact here)
    rw [update_uid_self,update_devId] at none
    rcases hj with ⟨u,hu⟩ | ⟨d,hd⟩
    · exact none.1 u (h.uid_ne_zero hu) hu
    · refine none.2 d ?_ hd
      rintro rfl
      have own := h.ownDevId _ i (h.at_address held) (h.usable _ j hd)
      rw [hd] at own
      exact ji (Option.some.inj own)

theorem login_clean {u : Uid} {i : InfoId} (h : Accounted s) (held : Held s i)
    (ghosts : LeavesNoGhost (s.login u i)) : FilesCleanly s (.login u i) := by
  intro v hv
  by_contra ne
  have registered : (s.login u i).ctx2InfoMap (s.infos i).ctx.remoteAddress = some i :=
    h.at_address held
  have none := ghosts.no_identity (j := i) registered (login_address ..)
  rw [login_uid_self] at none
  exact none.1 v ne ((put_of_ne i ne).trans hv)

theorem clean_of_leavesNoGhost {t : Mgr} {a : Action} (h : Accounted s)
    (domain : OfRegistered s a) (hs : Step s a t) (ghosts : LeavesNoGhost t) :
    FilesCleanly s a := by
  cases hs with
  | @found uid devId ctx info found =>
    cases ctx with
    | none => trivial
    | some ctx =>
      intro free
      rw [found] at free
      cases free
  | noCtx | absent | delete => trivial
  | create free => exact fun _ _ hj => create_clean h (domain _ rfl) free ghosts hj
  | update => exact update_clean h domain ghosts
  | login => exact login_clean h domain.2 ghosts

end Accounting

/-- In the states of a run every disconnect leaves no ghost exactly if every connection
    is filed cleanly. -/
theorem leavesNoGhost_iff {as : List Action} {s : Mgr} (h : Run machine start as s)
    (domain : Guarded machine OfRegistered start as) :
    Throughout machine LeavesNoGhost start as ↔ Guarded machine FilesCleanly start as :=
  h.always_iff_guarded (J := Accounted) (fun _ hj => hj.leavesNoGhost)
    (fun _ _ _ hj hd hg hs => accounted_step hj hd hg (step_cases hs))
    (fun _ _ _ hj hd hs hp => clean_of_leavesNoGhost hj hd (step_cases hs) hp) domain
    accounted_start

def oneSession : List Action :=
  [.addUserInfo 0 (some "dev") (some phone),.login 7 0,.delUserInfo phone]

theorem session_leaves_no_ghost : Throughout machine LeavesNoGhost start oneSession := by
  have run : Run machine start oneSession _ := run_endOf (by decide)
  have domain : Guarded machine OfRegistered start oneSession := by
    refine .cons rfl ?_ (.cons rfl ⟨by decide,.inr (.inl ⟨some "dev",rfl⟩)⟩ (.cons rfl trivial trivial))
    rintro c h
    cases h
    rfl
  refine (leavesNoGhost_iff run domain).mpr (.cons rfl ?_ (.cons rfl ?_ (.cons rfl trivial trivial)))
  · exact fun _ j hj => absurd hj.held (not_held_start j)
  · intro v hv
    cases hv

/-- The second of two users over one address displaces the first. -/
def displaced : List Action :=
  [.addUserInfo 7 (some "dev") (some phone),.addUserInfo 8 (some "tab") (some phone)]

/-- A reattachment forgets the uid under which the record is filed. -/
def reattached : List Action :=
  [.addUserInfo 7 (some "dev") (some phone),.updateUserInfoCtx tablet 0,.login 8 0]

/-- After the disconnect user 7 is still found in a record of the closed connection. -/
theorem ghosts_left :
    (∃ s, Run machine start displaced s ∧ Guarded machine OfRegistered start displaced ∧
      (s.delUserInfo phone).2.getUserInfoByUid 7 = some 0 ∧
      (s.delUserInfo phone).2.address 0 = phone.remoteAddress ∧ ¬LeavesNoGhost s) ∧
    (∃ s, Run machine start reattached s ∧ Guarded machine OfRegistered start reattached ∧
      (s.delUserInfo tablet).2.getUserInfoByUid 7 = some 0 ∧
      (s.delUserInfo tablet).2.address 0 = tablet.remoteAddress ∧ ¬LeavesNoGhost s) := by
  have live : ∀ (ctx c : Ctx), ctx.isRemoved = false → some ctx = some c → c.isRemoved = false := by
    rintro ctx c h e
    cases e
    exact h
  constructor
  · refine ⟨_,run_endOf (by decide),.cons rfl (live _ · rfl) (.cons rfl (live _ · rfl) trivial),
      rfl,rfl,?_⟩
    intro none
    exact none phone 0 (.inl ⟨7,rfl⟩) rfl
  · refine ⟨_,run_endOf (by decide),.cons rfl (live _ · rfl)
      (.cons rfl (.inl ⟨7,rfl⟩) (.cons rfl ⟨by decide,.inl ⟨7,rfl⟩⟩ trivial)),rfl,rfl,?_⟩
    intro none
    exact none tablet 0 (.inl ⟨7,rfl⟩) rfl

end SeeU.UserConnectionMgr
