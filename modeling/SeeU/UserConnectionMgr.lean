import SeeU.KeyedIndex
import SeeU.RpcMsg
import SeeU.TransitionSystem

set_option autoImplicit false

/-!
# `UserConnectionMgr`

The users of the access server. One record for each user is shared by three maps,
which file it under its uid, its device id and the remote address of its connection.
-/
namespace SeeU.UserConnectionMgr
open KeyedIndex TransitionSystem

/-- An `AccessUserInfo` object. -/
abbrev InfoId := ℕ
abbrev Uid := BitVec 64
abbrev DevId := Option String
abbrev Address := String

/-- A `ChannelHandlerContext` as a call finds it. -/
structure Ctx where
  remoteAddress : Address
  isRemoved : Bool
  deriving DecidableEq

structure AccessUserInfo where
  uid : Uid
  devId : DevId
  ctx : Ctx
  deriving DecidableEq

/-- `infos` holds the fields of the objects, those below `fresh` being allocated. -/
structure Mgr where
  infos : InfoId → AccessUserInfo
  fresh : InfoId
  uid2InfoMap : Uid → Option InfoId
  devId2InfoMap : DevId → Option InfoId
  ctx2InfoMap : Address → Option InfoId

/-- `devId != null && !devId.equals("")`. -/
def Usable (devId : DevId) : Prop := ∃ d, devId = some d ∧ d ≠ ""

instance (devId : DevId) : Decidable (Usable devId) :=
  match devId with
  | none => isFalse (by rintro ⟨d,h,_⟩; cases h)
  | some d => decidable_of_iff (d ≠ "") ⟨fun h => ⟨d,rfl,h⟩,by rintro ⟨e,he,h⟩; cases he; exact h⟩

namespace Mgr

def uid (s : Mgr) (info : InfoId) : Uid := (s.infos info).uid
def devId (s : Mgr) (info : InfoId) : DevId := (s.infos info).devId
def address (s : Mgr) (info : InfoId) : Address := (s.infos info).ctx.remoteAddress

def setInfo (s : Mgr) (info : InfoId) (value : AccessUserInfo) : Mgr :=
  { s with infos := Function.update s.infos info value }

def setUid (s : Mgr) (info : InfoId) (uid : Uid) : Mgr :=
  s.setInfo info { s.infos info with uid := uid }

def setCtx (s : Mgr) (info : InfoId) (ctx : Ctx) : Mgr :=
  s.setInfo info { s.infos info with ctx := ctx }

def getUserInfoByUid (s : Mgr) (uid : Uid) : Option InfoId := s.uid2InfoMap uid
def getUserInfoByDevId (s : Mgr) (devId : DevId) : Option InfoId := s.devId2InfoMap devId

/-- The lookups at the head of `addUserInfo`. -/
def findInfo (s : Mgr) (uid : Uid) (devId : DevId) : Option InfoId :=
  match if uid ≠ 0 then s.uid2InfoMap uid else none with
  | some info => some info
  | none => if Usable devId then s.devId2InfoMap devId else none

/-- The rest of `addUserInfo` for a context that is not null. -/
def createInfo (s : Mgr) (uid : Uid) (devId : DevId) (ctx : Ctx) : Mgr :=
  let info := s.fresh
  { s.setInfo info ⟨uid,devId,ctx⟩ with
    fresh := info + 1
    uid2InfoMap := if uid ≠ 0 then put s.uid2InfoMap uid info else s.uid2InfoMap
    devId2InfoMap := if Usable devId then put s.devId2InfoMap devId info else s.devId2InfoMap
    ctx2InfoMap :=
      if !ctx.isRemoved then put s.ctx2InfoMap ctx.remoteAddress info else s.ctx2InfoMap }

/-- With a null context the log line throws before any map is changed. -/
def addUserInfo (s : Mgr) (uid : Uid) (devId : DevId) (ctx : Option Ctx) :
    Except Throwable InfoId × Mgr :=
  match s.findInfo uid devId with
  | some info => (.ok info,s)
  | none =>
    match ctx with
    | none => (.error .nullPointer,s)
    | some ctx => (.ok s.fresh,s.createInfo uid devId ctx)

def addUserInfoByUid (s : Mgr) (uid : Uid) (info : InfoId) : Mgr :=
  { s with uid2InfoMap := put s.uid2InfoMap uid info }

def updateUserInfoCtx (s : Mgr) (ctx : Ctx) (info : InfoId) : Mgr :=
  let s := { s with ctx2InfoMap := remove s.ctx2InfoMap (s.address info) }
  let s := (s.setCtx info ctx).setUid info 0
  { s with ctx2InfoMap := put s.ctx2InfoMap ctx.remoteAddress info }

def delUserInfo (s : Mgr) (ctx : Ctx) : Option InfoId × Mgr :=
  let found := s.ctx2InfoMap ctx.remoteAddress
  let s := { s with ctx2InfoMap := remove s.ctx2InfoMap ctx.remoteAddress }
  match found with
  | none => (none,s)
  | some info =>
    (some info,
      { s with
        devId2InfoMap := remove s.devId2InfoMap (s.devId info)
        uid2InfoMap := remove s.uid2InfoMap (s.uid info) })

end Mgr

/-- What the `sendMsg` methods do with a message: they broadcast it, log an error, or
    hand it to `sendMsg` of one record. -/
inductive Sending where
  | broadcast | noUser
  | sendMsg (info : InfoId)
  deriving DecidableEq

def Mgr.sendMsgByUid (s : Mgr) (uid : Uid) : Sending :=
  if 0 = uid then .broadcast
  else
    match s.getUserInfoByUid uid with
    | none => .noUser
    | some info => .sendMsg info

/-- A null device id throws at `devId.equals`. -/
def Mgr.sendMsgByDevId (s : Mgr) (devId : DevId) : Except Throwable Sending :=
  match devId with
  | none => .error .nullPointer
  | some d =>
    if d = "0" ∨ d = "" then .ok .broadcast
    else
      match s.getUserInfoByDevId devId with
      | none => .ok .noUser
      | some info => .ok (.sendMsg info)

/-! ### Runs -/

/-- `login` is `info.setUid(uid)` followed by `addUserInfoByUid(uid, info)`. -/
inductive Action where
  | addUserInfo (uid : Uid) (devId : DevId) (ctx : Option Ctx)
  | updateUserInfoCtx (ctx : Ctx) (info : InfoId)
  | login (uid : Uid) (info : InfoId)
  | delUserInfo (ctx : Ctx)

def Mgr.login (s : Mgr) (uid : Uid) (info : InfoId) : Mgr :=
  (s.setUid info uid).addUserInfoByUid uid info

/-- A record can be reattached or logged in once `addUserInfo` has returned it. -/
def step (s : Mgr) : Action → Option Mgr
  | .addUserInfo uid devId ctx => some (s.addUserInfo uid devId ctx).2
  | .updateUserInfoCtx ctx info =>
    if info < s.fresh then some (s.updateUserInfoCtx ctx info) else none
  | .login uid info => if info < s.fresh then some (s.login uid info) else none
  | .delUserInfo ctx => some (s.delUserInfo ctx).2

def start : Mgr :=
  ⟨fun _ => ⟨0,none,⟨"",true⟩⟩,0,fun _ => none,fun _ => none,fun _ => none⟩

def machine : Machine Mgr Action := ⟨start,step⟩

/-- What `delUserInfo` does to the maps when it finds a record. -/
def Mgr.removeInfo (s : Mgr) (info : InfoId) (a : Address) : Mgr :=
  { s with
    uid2InfoMap := remove s.uid2InfoMap (s.uid info)
    devId2InfoMap := remove s.devId2InfoMap (s.devId info)
    ctx2InfoMap := remove s.ctx2InfoMap a }

theorem delUserInfo_none {s : Mgr} {ctx : Ctx} (h : s.ctx2InfoMap ctx.remoteAddress = none) :
    s.delUserInfo ctx = (none,s) := by
  unfold Mgr.delUserInfo
  rw [h,remove_of_none h]

theorem delUserInfo_some {s : Mgr} {ctx : Ctx} {info : InfoId}
    (h : s.ctx2InfoMap ctx.remoteAddress = some info) :
    s.delUserInfo ctx = (some info,s.removeInfo info ctx.remoteAddress) := by
  unfold Mgr.delUserInfo
  rw [h]
  rfl

inductive Step (s : Mgr) : Action → Mgr → Prop where
  | found {uid : Uid} {devId : DevId} {ctx : Option Ctx} {info : InfoId}
      (h : s.findInfo uid devId = some info) : Step s (.addUserInfo uid devId ctx) s
  | noCtx {uid : Uid} {devId : DevId} (h : s.findInfo uid devId = none) :
      Step s (.addUserInfo uid devId none) s
  | create {uid : Uid} {devId : DevId} {ctx : Ctx} (h : s.findInfo uid devId = none) :
      Step s (.addUserInfo uid devId (some ctx)) (s.createInfo uid devId ctx)
  | update {ctx : Ctx} {info : InfoId} (h : info < s.fresh) :
      Step s (.updateUserInfoCtx ctx info) (s.updateUserInfoCtx ctx info)
  | login {uid : Uid} {info : InfoId} (h : info < s.fresh) :
      Step s (.login uid info) (s.login uid info)
  | absent {ctx : Ctx} (h : s.ctx2InfoMap ctx.remoteAddress = none) : Step s (.delUserInfo ctx) s
  | delete {ctx : Ctx} {info : InfoId} (h : s.ctx2InfoMap ctx.remoteAddress = some info) :
      Step s (.delUserInfo ctx) (s.removeInfo info ctx.remoteAddress)

theorem step_cases {s t : Mgr} {a : Action} (h : machine.step s a = some t) : Step s a t := by
  change step s a = some t at h
  cases a with
  | addUserInfo uid devId ctx =>
    simp only [step,Mgr.addUserInfo,Option.some.injEq] at h
    cases hf : s.findInfo uid devId with
    | some info =>
      rw [hf] at h
      cases h
      exact .found hf
    | none =>
      rw [hf] at h
      cases ctx with
      | none =>
        cases h
        exact .noCtx hf
      | some ctx =>
        cases h
        exact .create hf
  | updateUserInfoCtx ctx info =>
    simp only [step] at h
    split_ifs at h with hi
    cases h
    exact .update hi
  | login uid info =>
    simp only [step] at h
    split_ifs at h with hi
    cases h
    exact .login hi
  | delUserInfo ctx =>
    simp only [step,Option.some.injEq] at h
    cases hc : s.ctx2InfoMap ctx.remoteAddress with
    | none =>
      rw [delUserInfo_none hc] at h
      cases h
      exact .absent hc
    | some info =>
      rw [delUserInfo_some hc] at h
      cases h
      exact .delete hc

/-! ### What the steps do to the fields and the maps -/

section Fields
variable (s : Mgr) (info : InfoId)

theorem findInfo_eq_none {s : Mgr} {uid : Uid} {devId : DevId} (h : s.findInfo uid devId = none) :
    (uid ≠ 0 → s.uid2InfoMap uid = none) ∧ (Usable devId → s.devId2InfoMap devId = none) := by
  unfold Mgr.findInfo at h
  split at h
  · cases h
  · rename_i missing
    constructor
    · intro known
      rw [if_pos known] at missing
      exact missing
    · intro usable
      rw [if_pos usable] at h
      exact h

@[simp] theorem setInfo_self (value : AccessUserInfo) : (s.setInfo info value).infos info = value :=
  Function.update_self ..

theorem setInfo_of_ne {j : InfoId} (value : AccessUserInfo) (h : j ≠ info) :
    (s.setInfo info value).infos j = s.infos j := Function.update_of_ne h ..

section Create
variable (uid : Uid) (devId : DevId) (ctx : Ctx)

theorem createInfo_self : (s.createInfo uid devId ctx).infos s.fresh = ⟨uid,devId,ctx⟩ :=
  Function.update_self ..

theorem createInfo_of_ne {j : InfoId} (h : j ≠ s.fresh) :
    (s.createInfo uid devId ctx).infos j = s.infos j := Function.update_of_ne h ..

@[simp] theorem create_uid_self : (s.createInfo uid devId ctx).uid s.fresh = uid := by
  rw [Mgr.uid,createInfo_self]

@[simp] theorem create_devId_self : (s.createInfo uid devId ctx).devId s.fresh = devId := by
  rw [Mgr.devId,createInfo_self]

@[simp] theorem create_address_self :
    (s.createInfo uid devId ctx).address s.fresh = ctx.remoteAddress := by
  rw [Mgr.address,createInfo_self]

variable {j : InfoId} (h : j ≠ s.fresh)
include h

theorem create_uid_of_ne : (s.createInfo uid devId ctx).uid j = s.uid j := by
  rw [Mgr.uid,createInfo_of_ne s uid devId ctx h]
  rfl

theorem create_devId_of_ne : (s.createInfo uid devId ctx).devId j = s.devId j := by
  rw [Mgr.devId,createInfo_of_ne s uid devId ctx h]
  rfl

theorem create_address_of_ne : (s.createInfo uid devId ctx).address j = s.address j := by
  rw [Mgr.address,createInfo_of_ne s uid devId ctx h]
  rfl

end Create

section Update
variable (ctx : Ctx)

theorem update_infos_self : (s.updateUserInfoCtx ctx info).infos info =
    ⟨0,s.devId info,ctx⟩ := by
  simp [Mgr.updateUserInfoCtx,Mgr.setCtx,Mgr.setUid,Mgr.devId,Mgr.setInfo]

theorem update_infos_of_ne {j : InfoId} (h : j ≠ info) :
    (s.updateUserInfoCtx ctx info).infos j = s.infos j := by
  simp [Mgr.updateUserInfoCtx,Mgr.setCtx,Mgr.setUid,Mgr.setInfo,h]

@[simp] theorem update_uid_self : (s.updateUserInfoCtx ctx info).uid info = 0 := by
  rw [Mgr.uid,update_infos_self]

theorem update_uid_of_ne {j : InfoId} (h : j ≠ info) :
    (s.updateUserInfoCtx ctx info).uid j = s.uid j := by
  rw [Mgr.uid,update_infos_of_ne s info ctx h]
  rfl

@[simp] theorem update_address_self :
    (s.updateUserInfoCtx ctx info).address info = ctx.remoteAddress := by
  rw [Mgr.address,update_infos_self]

theorem update_address_of_ne {j : InfoId} (h : j ≠ info) :
    (s.updateUserInfoCtx ctx info).address j = s.address j := by
  rw [Mgr.address,update_infos_of_ne s info ctx h]
  rfl

@[simp] theorem update_devId (j : InfoId) : (s.updateUserInfoCtx ctx info).devId j = s.devId j := by
  by_cases h : j = info
  · subst h
    rw [Mgr.devId,update_infos_self]
  · rw [Mgr.devId,update_infos_of_ne s info ctx h]
    rfl

end Update

section Login
variable (uid : Uid)

theorem login_infos_self : (s.login uid info).infos info = { s.infos info with uid := uid } := by
  simp [Mgr.login,Mgr.setUid,Mgr.addUserInfoByUid]

theorem login_infos_of_ne {j : InfoId} (h : j ≠ info) :
    (s.login uid info).infos j = s.infos j := by
  simp [Mgr.login,Mgr.setUid,Mgr.addUserInfoByUid,setInfo_of_ne,h]

@[simp] theorem login_uid_self : (s.login uid info).uid info = uid := by
  rw [Mgr.uid,login_infos_self]

theorem login_uid_of_ne {j : InfoId} (h : j ≠ info) : (s.login uid info).uid j = s.uid j := by
  rw [Mgr.uid,login_infos_of_ne s info uid h]
  rfl

@[simp] theorem login_devId (j : InfoId) : (s.login uid info).devId j = s.devId j := by
  by_cases h : j = info
  · subst h
    rw [Mgr.devId,login_infos_self]
    rfl
  · rw [Mgr.devId,login_infos_of_ne s info uid h]
    rfl

@[simp] theorem login_address (j : InfoId) : (s.login uid info).address j = s.address j := by
  by_cases h : j = info
  · subst h
    rw [Mgr.address,login_infos_self]
    rfl
  · rw [Mgr.address,login_infos_of_ne s info uid h]
    rfl

end Login

end Fields

end SeeU.UserConnectionMgr
