import SeeU.UserConnectionMgr

set_option autoImplicit false

/-!
# What the maps of `UserConnectionMgr` keep of a record

Every entry of `ctx2InfoMap` is at the present address of its record, in every run.
In the runs that only add and delete, a record has its uid and its device id for
itself.
-/
namespace SeeU.UserConnectionMgr
open KeyedIndex TransitionSystem

/-- A record is in one of the three maps. -/
def Held (s : Mgr) (info : InfoId) : Prop :=
  (∃ u, s.uid2InfoMap u = some info) ∨ (∃ d, s.devId2InfoMap d = some info) ∨
    ∃ a, s.ctx2InfoMap a = some info

/-- The records in the maps are allocated. -/
def Allocated (s : Mgr) : Prop := ∀ i, Held s i → i < s.fresh

theorem Allocated.ne_fresh {s : Mgr} (h : Allocated s) {i : InfoId} (held : Held s i) :
    i ≠ s.fresh :=
  Nat.ne_of_lt (h i held)

theorem not_held_start (i : InfoId) : ¬Held start i := by
  rintro (⟨_,h⟩ | ⟨_,h⟩ | ⟨_,h⟩) <;> cases h

theorem held_of_remove {s : Mgr} {i j : InfoId} {a : Address} (h : Held (s.removeInfo i a) j) :
    Held s j := by
  rcases h with ⟨u,h⟩ | ⟨d,h⟩ | ⟨b,h⟩
  · exact .inl ⟨u,(remove_eq_some h).2⟩
  · exact .inr (.inl ⟨d,(remove_eq_some h).2⟩)
  · exact .inr (.inr ⟨b,(remove_eq_some h).2⟩)

theorem held_of_create {s : Mgr} {uid : Uid} {devId : DevId} {ctx : Ctx} {j : InfoId}
    (h : Held (s.createInfo uid devId ctx) j) : j = s.fresh ∨ Held s j := by
  rcases h with ⟨u,h⟩ | ⟨d,h⟩ | ⟨a,h⟩
  · rcases ite_put_eq_some h with ⟨_,_,rfl⟩ | ⟨_,h⟩
    · exact .inl rfl
    · exact .inr (.inl ⟨u,h⟩)
  · rcases ite_put_eq_some h with ⟨_,_,rfl⟩ | ⟨_,h⟩
    · exact .inl rfl
    · exact .inr (.inr (.inl ⟨d,h⟩))
  · rcases ite_put_eq_some h with ⟨_,_,rfl⟩ | ⟨_,h⟩
    · exact .inl rfl
    · exact .inr (.inr (.inr ⟨a,h⟩))

theorem held_of_update {s : Mgr} {ctx : Ctx} {i j : InfoId}
    (h : Held (s.updateUserInfoCtx ctx i) j) : j = i ∨ Held s j := by
  rcases h with ⟨u,h⟩ | ⟨d,h⟩ | ⟨a,h⟩
  · exact .inr (.inl ⟨u,h⟩)
  · exact .inr (.inr (.inl ⟨d,h⟩))
  · rcases put_eq_some h with ⟨_,rfl⟩ | ⟨_,h⟩
    · exact .inl rfl
    · exact .inr (.inr (.inr ⟨a,(remove_eq_some h).2⟩))

theorem held_of_login {s : Mgr} {uid : Uid} {i j : InfoId} (h : Held (s.login uid i) j) :
    j = i ∨ Held s j := by
  rcases h with ⟨u,h⟩ | ⟨d,h⟩ | ⟨a,h⟩
  · rcases put_eq_some h with ⟨_,rfl⟩ | ⟨_,h⟩
    · exact .inl rfl
    · exact .inr (.inl ⟨u,h⟩)
  · exact .inr (.inr (.inl ⟨d,h⟩))
  · exact .inr (.inr (.inr ⟨a,h⟩))

theorem allocated_step {s t : Mgr} {a : Action} (alloc : Allocated s) (h : Step s a t) :
    Allocated t := by
  intro j held
  cases h with
  | found | noCtx | absent => exact alloc j held
  | create =>
    change j < s.fresh + 1
    rcases held_of_create held with rfl | held
    · exact Nat.lt_succ_self _
    · exact Nat.lt_succ_of_lt (alloc j held)
  | update below =>
    rcases held_of_update held with rfl | held
    · exact below
    · exact alloc j held
  | login below =>
    rcases held_of_login held with rfl | held
    · exact below
    · exact alloc j held
  | delete => exact alloc j (held_of_remove held)

/-! ### A record is found at its present address only -/

theorem Step.address {s t : Mgr} {a : Action} (h : Step s a t) {i : InfoId} (below : i < s.fresh) :
    t.address i = s.address i ∨
      ∃ ctx, a = .updateUserInfoCtx ctx i ∧ t.address i = ctx.remoteAddress := by
  cases h with
  | found | noCtx | absent | delete => exact .inl rfl
  | create => exact .inl (create_address_of_ne s _ _ _ (Nat.ne_of_lt below))
  | @update ctx j =>
    by_cases ij : i = j
    · subst ij
      exact .inr ⟨ctx,rfl,update_address_self ..⟩
    · exact .inl (update_address_of_ne s j ctx ij)
  | login => exact .inl (login_address ..)

theorem Step.fresh_le {s t : Mgr} {a : Action} (h : Step s a t) : s.fresh ≤ t.fresh := by
  cases h with
  | create => exact Nat.le_succ _
  | found | noCtx | update | login | absent | delete => exact Nat.le_refl _

section Create
variable {s : Mgr} {uid : Uid} {devId : DevId} {ctx : Ctx}

theorem create_uid_filed (alloc : Allocated s) (h : Filed s.uid2InfoMap s.uid) :
    Filed (s.createInfo uid devId ctx).uid2InfoMap (s.createInfo uid devId ctx).uid :=
  h.ite_put (create_uid_self ..) (fun _ ne => create_uid_of_ne _ _ _ _ ne)
    (fun u hu => alloc.ne_fresh (.inl ⟨u,hu⟩) rfl)

theorem create_devId_filed (alloc : Allocated s) (h : Filed s.devId2InfoMap s.devId) :
    Filed (s.createInfo uid devId ctx).devId2InfoMap (s.createInfo uid devId ctx).devId :=
  h.ite_put (create_devId_self ..) (fun _ ne => create_devId_of_ne _ _ _ _ ne)
    (fun d hd => alloc.ne_fresh (.inr (.inl ⟨d,hd⟩)) rfl)

theorem create_address_filed (alloc : Allocated s) (h : Filed s.ctx2InfoMap s.address) :
    Filed (s.createInfo uid devId ctx).ctx2InfoMap (s.createInfo uid devId ctx).address :=
  h.ite_put (create_address_self ..) (fun _ ne => create_address_of_ne _ _ _ _ ne)
    (fun a ha => alloc.ne_fresh (.inr (.inr ⟨a,ha⟩)) rfl)

theorem create_noUid (h : s.uid2InfoMap 0 = none) :
    (s.createInfo uid devId ctx).uid2InfoMap 0 = none := by
  by_contra present
  obtain ⟨j,hj⟩ := Option.ne_none_iff_exists'.mp present
  rcases ite_put_eq_some hj with ⟨known,zero,_⟩ | ⟨_,hj⟩
  · exact known zero.symm
  · rw [h] at hj
    cases hj

end Create

theorem address_filed_step {s t : Mgr} {a : Action} (alloc : Allocated s)
    (h : Filed s.ctx2InfoMap s.address) (hs : Step s a t) : Filed t.ctx2InfoMap t.address := by
  cases hs with
  | found | noCtx | absent => exact h
  | create => exact create_address_filed alloc h
  | @update ctx i =>
    have moved := h.move (fun j ne => update_address_of_ne s i ctx ne)
    rw [update_address_self] at moved
    exact moved
  | login =>
    intro b j hj
    rw [login_address]
    exact h b j hj
  | delete => exact h.remove _

theorem address_filed_run {as : List Action} {s : Mgr} (h : Run machine start as s) :
    Filed s.ctx2InfoMap s.address := by
  have both := h.invariant (I := fun s => Allocated s ∧ Filed s.ctx2InfoMap s.address) (by
    rintro s a t ⟨alloc,filed⟩ hs
    exact ⟨allocated_step alloc (step_cases hs),address_filed_step alloc filed (step_cases hs)⟩)
    ⟨fun i held => absurd held (not_held_start i),filed_none _⟩
  exact both.2

/-- In the run `as` the record was moved away from the address `old` and not moved back. -/
def MovedAway (as : List Action) (i : InfoId) (old : Address) : Prop :=
  ∃ bs ctx cs s, as = bs ++ .updateUserInfoCtx ctx i :: cs ∧ Run machine start bs s ∧
    s.address i = old ∧ ctx.remoteAddress ≠ old ∧
      ∀ c, .updateUserInfoCtx c i ∈ cs → c.remoteAddress ≠ old

theorem stays_away {cs : List Action} {s t : Mgr} {i : InfoId} {old : Address}
    (h : Run machine s cs t) (below : i < s.fresh) (away : s.address i ≠ old)
    (unmoved : ∀ c, .updateUserInfoCtx c i ∈ cs → c.remoteAddress ≠ old) : t.address i ≠ old := by
  induction h with
  | nil _ => exact away
  | @cons s u t a as hs tail ih =>
    have hstep := step_cases hs
    refine ih (Nat.lt_of_lt_of_le below hstep.fresh_le) ?_ ?_
    · rcases hstep.address below with kept | ⟨c,rfl,moved⟩
      · rw [kept]
        exact away
      · rw [moved]
        exact unmoved c (by simp)
    · intro c hc
      exact unmoved c (List.mem_cons_of_mem _ hc)

theorem address_of_moved_away {as : List Action} {s : Mgr} {i : InfoId} {old : Address}
    (h : Run machine start as s) (moved : MovedAway as i old) : s.address i ≠ old := by
  obtain ⟨bs,ctx,cs,before,rfl,hb,_,away,unmoved⟩ := moved
  obtain ⟨before',hb',rest⟩ := h.split
  have same := hb.unique hb'
  subst same
  cases rest with
  | cons hs tail =>
    have hstep := step_cases hs
    cases hstep with
    | update below =>
      refine stays_away tail below ?_ unmoved
      rw [update_address_self]
      exact away

theorem delUserInfo_ctx_kept {s : Mgr} {ctx : Ctx} {a : Address} {i : InfoId}
    (ne : a ≠ ctx.remoteAddress) (h : s.ctx2InfoMap a = some i) :
    (s.delUserInfo ctx).2.ctx2InfoMap a = some i := by
  cases hc : s.ctx2InfoMap ctx.remoteAddress with
  | none =>
    rw [delUserInfo_none hc]
    exact h
  | some j =>
    rw [delUserInfo_some hc]
    change remove s.ctx2InfoMap ctx.remoteAddress a = _
    rw [remove_of_ne ne]
    exact h

theorem delUserInfo_found {s : Mgr} {ctx : Ctx} {i : InfoId} (h : (s.delUserInfo ctx).1 = some i) :
    s.ctx2InfoMap ctx.remoteAddress = some i := by
  cases hc : s.ctx2InfoMap ctx.remoteAddress with
  | none =>
    rw [delUserInfo_none hc] at h
    cases h
  | some j =>
    rw [delUserInfo_some hc] at h
    exact h

/-- A disconnect finds only a record whose connection has its address. So one that is
    delivered after the record has moved away neither returns the record nor removes it
    from `ctx2InfoMap`. -/
theorem late_disconnect_harmless {as : List Action} {s : Mgr} (h : Run machine start as s) :
    (∀ ctx i, (s.delUserInfo ctx).1 = some i →
      (s.delUserInfo ctx).2.address i = ctx.remoteAddress) ∧
    ∀ ctx i, MovedAway as i ctx.remoteAddress → (s.delUserInfo ctx).1 ≠ some i ∧
      ∀ a, s.ctx2InfoMap a = some i → (s.delUserInfo ctx).2.ctx2InfoMap a = some i := by
  have filed := address_filed_run h
  constructor
  · intro ctx i hd
    have found := delUserInfo_found hd
    rw [delUserInfo_some found]
    exact filed _ _ found
  · intro ctx i moved
    have away := address_of_moved_away h moved
    constructor
    · intro hd
      exact away (filed _ _ (delUserInfo_found hd))
    · intro a ha
      refine delUserInfo_ctx_kept ?_ ha
      rintro rfl
      exact away (filed _ _ ha)

def phone : Ctx := ⟨"/10.0.0.1:4001",false⟩
def tablet : Ctx := ⟨"/10.0.0.2:4002",false⟩

/-- The first connection closes after its user was reattached to another. -/
theorem reattached_survives :
    ∃ s, Run machine start [.addUserInfo 7 (some "dev") (some phone),.updateUserInfoCtx tablet 0] s ∧
      (s.delUserInfo phone).1 ≠ some 0 ∧
      (s.delUserInfo phone).2.ctx2InfoMap tablet.remoteAddress = some 0 := by
  have run : Run machine start [.addUserInfo 7 (some "dev") (some phone),
    .updateUserInfoCtx tablet 0] _ := run_endOf (by decide)
  have first : Run machine start [.addUserInfo 7 (some "dev") (some phone)] _ :=
    run_endOf (by decide)
  have kept := (late_disconnect_harmless run).2 phone 0
    ⟨_,tablet,[],_,rfl,first,rfl,by decide,nofun⟩
  exact ⟨_,run,kept.1,kept.2 _ rfl⟩

/-! ### One record for each identity -/

def Action.AddsOrDeletes : Action → Prop
  | .addUserInfo _ _ _ | .delUserInfo _ => True
  | _ => False

/-- No two records in the maps share a uid or a device id, and every one is found by its
    own. -/
structure OneRecord (s : Mgr) : Prop where
  uid : ∀ i j, Held s i → Held s j → s.uid i ≠ 0 → s.uid i = s.uid j → i = j
  devId : ∀ i j, Held s i → Held s j → Usable (s.devId i) → s.devId i = s.devId j → i = j
  byUid : ∀ i, Held s i → s.uid i ≠ 0 → s.getUserInfoByUid (s.uid i) = some i
  byDevId : ∀ i, Held s i → Usable (s.devId i) → s.getUserInfoByDevId (s.devId i) = some i

/-- What adding and deleting keep. The last two fields are what makes the blind removes
    of `delUserInfo` hit the record's own entries. -/
structure Identified (s : Mgr) : Prop where
  allocated : Allocated s
  uids : Filed s.uid2InfoMap s.uid
  devIds : Filed s.devId2InfoMap s.devId
  addresses : Filed s.ctx2InfoMap s.address
  noUid : s.uid2InfoMap 0 = none
  usable : ∀ d i, s.devId2InfoMap d = some i → Usable d
  byUid : ∀ i, Held s i → s.uid i ≠ 0 → s.uid2InfoMap (s.uid i) = some i
  byDevId : ∀ i, Held s i → Usable (s.devId i) → s.devId2InfoMap (s.devId i) = some i

theorem Identified.oneRecord {s : Mgr} (h : Identified s) : OneRecord s where
  uid i j hi hj known same := by
    have own := h.byUid i hi known
    rw [same,h.byUid j hj (by rw [←same]; exact known)] at own
    exact (Option.some.inj own).symm
  devId i j hi hj known same := by
    have own := h.byDevId i hi known
    rw [same,h.byDevId j hj (by rw [←same]; exact known)] at own
    exact (Option.some.inj own).symm
  byUid := h.byUid
  byDevId := h.byDevId

theorem Identified.gone {s : Mgr} (h : Identified s) {i : InfoId} {a : Address}
    (hi : s.ctx2InfoMap a = some i) : ¬Held (s.removeInfo i a) i := by
  rintro (⟨u,hu⟩ | ⟨d,hd⟩ | ⟨b,hb⟩)
  · exact h.uids.remove_ne i u hu
  · exact h.devIds.remove_ne i d hd
  · obtain ⟨ne,hb⟩ := remove_eq_some hb
    exact ne ((h.addresses b i hb).symm.trans (h.addresses a i hi))

theorem Identified.remove {s : Mgr} (h : Identified s) {i : InfoId} {a : Address}
    (hi : s.ctx2InfoMap a = some i) : Identified (s.removeInfo i a) where
  allocated j hj := h.allocated j (held_of_remove hj)
  uids := h.uids.remove _
  devIds := h.devIds.remove _
  addresses := h.addresses.remove _
  noUid := by
    change KeyedIndex.remove s.uid2InfoMap (s.uid i) 0 = none
    by_cases same : 0 = s.uid i
    · rw [same,remove_self]
    · rw [remove_of_ne same]
      exact h.noUid
  usable d j hd := h.usable d j (remove_eq_some hd).2
  byUid j hj known := by
    have held := held_of_remove hj
    have own := h.byUid j held known
    change KeyedIndex.remove s.uid2InfoMap (s.uid i) (s.uid j) = some j
    by_cases same : s.uid j = s.uid i
    · have eq := h.oneRecord.uid j i held (.inr (.inr ⟨a,hi⟩)) known same
      subst eq
      exact absurd hj (h.gone hi)
    · rw [remove_of_ne same]
      exact own
  byDevId j hj known := by
    have held := held_of_remove hj
    have own := h.byDevId j held known
    change KeyedIndex.remove s.devId2InfoMap (s.devId i) (s.devId j) = some j
    by_cases same : s.devId j = s.devId i
    · have eq := h.oneRecord.devId j i held (.inr (.inr ⟨a,hi⟩)) known same
      subst eq
      exact absurd hj (h.gone hi)
    · rw [remove_of_ne same]
      exact own

/-- A record is created only under a uid and a device id that nobody has. -/
theorem Identified.create {s : Mgr} (h : Identified s) {uid : Uid} {devId : DevId} (ctx : Ctx)
    (free : s.findInfo uid devId = none) : Identified (s.createInfo uid devId ctx) := by
  obtain ⟨noUid,noDevId⟩ := findInfo_eq_none free
  refine ⟨allocated_step h.allocated (.create free),create_uid_filed h.allocated h.uids,
    create_devId_filed h.allocated h.devIds,create_address_filed h.allocated h.addresses,
    create_noUid h.noUid,?_,?_,?_⟩
  · intro d j hj
    rcases ite_put_eq_some hj with ⟨usable,rfl,_⟩ | ⟨_,hj⟩
    · exact usable
    · exact h.usable d j hj
  · intro j hj known
    rcases held_of_create hj with rfl | held
    · rw [create_uid_self] at known ⊢
      exact ite_put_self known
    · rw [create_uid_of_ne s _ _ _ (h.allocated.ne_fresh held)] at known ⊢
      exact ite_put_of_free noUid (h.byUid j held known)
  · intro j hj usable
    rcases held_of_create hj with rfl | held
    · rw [create_devId_self] at usable ⊢
      exact ite_put_self usable
    · rw [create_devId_of_ne s _ _ _ (h.allocated.ne_fresh held)] at usable ⊢
      exact ite_put_of_free noDevId (h.byDevId j held usable)

theorem identified_step {s t : Mgr} {a : Action} (h : Identified s) (only : a.AddsOrDeletes)
    (hs : Step s a t) : Identified t := by
  cases hs with
  | found | noCtx | absent => exact h
  | create free => exact h.create _ free
  | update | login => cases only
  | delete found => exact h.remove found

theorem identified_start : Identified start where
  allocated i held := absurd held (not_held_start i)
  uids := filed_none _
  devIds := filed_none _
  addresses := filed_none _
  noUid := rfl
  usable _ _ h := by cases h
  byUid i held := absurd held (not_held_start i)
  byDevId i held := absurd held (not_held_start i)

/-- However records are added and deleted, one record has each uid and each device id. -/
theorem one_record_per_identity {as : List Action} {s : Mgr} (h : Run machine start as s)
    (only : ∀ a ∈ as, a.AddsOrDeletes) : OneRecord s := by
  have identified := h.guarded_invariant (I := Identified) (G := fun _ a => a.AddsOrDeletes)
    (fun _ _ _ hi ha hs => identified_step hi ha (step_cases hs))
    (Guarded.of_forall (fun a ha _ => only a ha) start) identified_start
  exact identified.oneRecord

/-- Two users over one address, of whom the second has displaced the first. -/
def sharedAddress : List Action :=
  [.addUserInfo 7 (some "dev") (some phone),.addUserInfo 8 none (some phone),.delUserInfo phone]

theorem displaced_record_found : OneRecord (endOf machine start sharedAddress (by decide)) :=
  one_record_per_identity (run_endOf _) (by
    intro a ha
    simp only [sharedAddress,List.mem_cons,List.not_mem_nil,or_false] at ha
    rcases ha with rfl | rfl | rfl <;> trivial)

end SeeU.UserConnectionMgr
