import SeeU.UserConnectionIdentity

set_option autoImplicit false

/-!
# `UserConnectionMgr.addUserInfo` finds or creates

The record that the two lookups find is returned as it is. Otherwise a new one is filed
under each key that can be used, unless the log line before the insertions dereferences
a null context.
-/
namespace SeeU.UserConnectionMgr
open KeyedIndex TransitionSystem

/-- The record that is filed under the uid or, failing that, under the device id. -/
inductive Names (s : Mgr) (uid : Uid) (devId : DevId) (i : InfoId) : Prop where
  | byUid (known : uid ≠ 0) (h : s.uid2InfoMap uid = some i)
  | byDevId (failing : uid ≠ 0 → s.uid2InfoMap uid = none) (usable : Usable devId)
      (h : s.devId2InfoMap devId = some i)

/-- The state `t` has one more record than `s`, filed under its usable keys. -/
structure Created (s : Mgr) (uid : Uid) (devId : DevId) (ctx : Option Ctx) (info : InfoId)
    (t : Mgr) : Prop where
  fresh : s.fresh ≤ info ∧ ¬Held s info
  fields : ∀ c, ctx = some c → t.infos info = ⟨uid,devId,c⟩
  others : ∀ j, j ≠ info → t.infos j = s.infos j
  byUid : uid ≠ 0 → t.getUserInfoByUid uid = some info
  byDevId : Usable devId → t.getUserInfoByDevId devId = some info
  byCtx : ∀ c, ctx = some c → c.isRemoved = false → t.ctx2InfoMap c.remoteAddress = some info
  uidKept : ∀ u, (uid ≠ 0 → u ≠ uid) → t.uid2InfoMap u = s.uid2InfoMap u
  devIdKept : ∀ d, (Usable devId → d ≠ devId) → t.devId2InfoMap d = s.devId2InfoMap d
  ctxKept : ∀ a, (∀ c, ctx = some c → c.isRemoved = false → a ≠ c.remoteAddress) →
    t.ctx2InfoMap a = s.ctx2InfoMap a
  uidFree : uid ≠ 0 → s.uid2InfoMap uid = none
  devIdFree : Usable devId → s.devId2InfoMap devId = none

/-- `addUserInfo` returns the named record and changes nothing, or creates one. -/
def FindsOrCreates (s : Mgr) (uid : Uid) (devId : DevId) (ctx : Option Ctx) : Prop :=
  ∃ info t, s.addUserInfo uid devId ctx = (.ok info,t) ∧
    (∀ i, Names s uid devId i → info = i ∧ t = s) ∧
    ((∀ i, ¬Names s uid devId i) → Created s uid devId ctx info t)

section Lookup
variable {s : Mgr} {uid : Uid} {devId : DevId}

theorem names_iff {i : InfoId} : Names s uid devId i ↔ s.findInfo uid devId = some i := by
  unfold Mgr.findInfo
  by_cases known : uid ≠ 0
  · rw [if_pos known]
    cases hu : s.uid2InfoMap uid with
    | some j =>
      constructor
      · rintro (⟨_,h⟩ | ⟨failing,_,_⟩)
        · rw [←hu,h]
        · rw [failing known] at hu
          cases hu
      · intro h
        exact .byUid known (hu.trans h)
    | none =>
      dsimp only
      constructor
      · rintro (⟨_,h⟩ | ⟨_,usable,h⟩)
        · rw [hu] at h
          cases h
        · rw [if_pos usable]
          exact h
      · intro h
        split_ifs at h with usable
        exact .byDevId (fun _ => hu) usable h
  · rw [if_neg known]
    dsimp only
    constructor
    · rintro (⟨some,_⟩ | ⟨_,usable,h⟩)
      · exact absurd some known
      · rw [if_pos usable]
        exact h
    · intro h
      split_ifs at h with usable
      exact .byDevId (fun some => absurd some known) usable h

theorem created_createInfo {ctx : Ctx} (alloc : Allocated s)
    (free : s.findInfo uid devId = none) :
    Created s uid devId (some ctx) s.fresh (s.createInfo uid devId ctx) where
  fresh := ⟨Nat.le_refl _,fun held => alloc.ne_fresh held rfl⟩
  fields c hc := by
    cases hc
    exact createInfo_self s uid devId ctx
  others _ ne := createInfo_of_ne s uid devId ctx ne
  byUid known := ite_put_self known
  byDevId usable := ite_put_self usable
  byCtx c hc live := by
    cases hc
    exact ite_put_self (by simp [live])
  uidKept _ other := ite_put_of_ne other
  devIdKept _ other := ite_put_of_ne other
  ctxKept _ other := ite_put_of_ne (fun live => other ctx rfl (by simpa using live))
  uidFree := (findInfo_eq_none free).1
  devIdFree := (findInfo_eq_none free).2

end Lookup

theorem allocated_run {as : List Action} {s : Mgr} (h : Run machine start as s) : Allocated s :=
  h.invariant (I := Allocated) (fun _ _ _ alloc hs => allocated_step alloc (step_cases hs))
    (fun i held => absurd held (not_held_start i))

/-- In a reachable state `addUserInfo` finds or creates a record exactly if it is given a
    context, removed or not, or a uid or device id that names a record. -/
theorem findsOrCreates_iff {as : List Action} {s : Mgr} (h : Run machine start as s) (uid : Uid)
    (devId : DevId) (ctx : Option Ctx) :
    FindsOrCreates s uid devId ctx ↔ ctx ≠ none ∨ ∃ i, Names s uid devId i := by
  unfold FindsOrCreates
  simp only [names_iff]
  cases hf : s.findInfo uid devId with
  | some i =>
    refine iff_of_true ⟨i,s,?_,?_,?_⟩ (.inr ⟨i,rfl⟩)
    · simp only [Mgr.addUserInfo,hf]
    · intro j hj
      exact ⟨Option.some.inj hj,rfl⟩
    · intro missing
      exact absurd rfl (missing i)
  | none =>
    cases ctx with
    | none =>
      refine iff_of_false ?_ ?_
      · rintro ⟨info,t,he,_⟩
        simp only [Mgr.addUserInfo,hf] at he
        cases he
      · rintro (ne | ⟨_,hi⟩)
        · exact ne rfl
        · cases hi
    | some ctx =>
      refine iff_of_true ⟨s.fresh,s.createInfo uid devId ctx,?_,?_,?_⟩
        (.inl (Option.some_ne_none ctx))
      · simp only [Mgr.addUserInfo,hf]
      · intro i hi
        cases hi
      · intro _
        exact created_createInfo (allocated_run h) hf

/-- The context of a user whose connection is gone already. -/
theorem removed_context_created : ∃ s, Run machine start [.addUserInfo 7 (some "dev") (some phone)] s ∧
    FindsOrCreates s 8 (some "tab") (some ⟨"/10.0.0.2:4002",true⟩) := by
  have run : Run machine start [.addUserInfo 7 (some "dev") (some phone)] _ :=
    run_endOf (by decide)
  exact ⟨_,run,(findsOrCreates_iff run 8 (some "tab") _).mpr (.inl (Option.some_ne_none _))⟩

/-- Without a context the user is not registered. -/
theorem null_context_throws : start.addUserInfo 7 (some "dev") none = (.error .nullPointer,start) ∧
    Run machine start [] start ∧ ¬FindsOrCreates start 7 (some "dev") none := by
  refine ⟨rfl,.nil _,?_⟩
  rintro ⟨info,t,he,_⟩
  cases he

end SeeU.UserConnectionMgr
