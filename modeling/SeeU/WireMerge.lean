import SeeU.WireMessage

set_option autoImplicit false

/-!
# Messages that share a buffer

Encodings have no end mark, so the encodings of several messages in one buffer parse as
one message: every field has the last value that is not its default.
-/
namespace WireFormat
variable {σ : Type} (S : Schema σ)

def FieldSpec.merge (f : FieldSpec σ) (b : σ) (acc : σ) : σ :=
  if f.get b = f.kind.default then acc else f.set acc (f.get b)

/-- The fields of `b` that do not hold their default, and the other fields of `a`. -/
def Schema.merge (a b : σ) : σ := S.fields.foldl (fun acc f => f.merge b acc) a

def Schema.mergeAll (ms : List σ) : σ := ms.foldl S.merge S.defaultInstance

/-! ### The fields of a merged message -/

theorem FieldSpec.Apart.merge_get {f g : FieldSpec σ} (h : f.Apart g) (b acc : σ) :
    g.get (f.merge b acc) = g.get acc := by
  unfold FieldSpec.merge
  split_ifs
  · rfl
  · exact h.2.2 acc _

theorem merge_fields_apart {g : FieldSpec σ} (fs : List (FieldSpec σ)) (h : ∀ f ∈ fs, f.Apart g)
    (a b : σ) : g.get (fs.foldl (fun acc f => f.merge b acc) a) = g.get a := by
  induction fs generalizing a with
  | nil => rfl
  | cons f fs ih =>
    rw [List.foldl_cons,ih (fun q hq => h q (by simp [hq])),(h f (by simp)).merge_get]

variable {S}

theorem Schema.merge_get {f : FieldSpec σ} (mem : f ∈ S.fields) (a b : σ) :
    f.get (S.merge a b) = if f.get b = f.kind.default then f.get a else f.get b := by
  have apart := S.apart
  have own : ∀ acc, f.get (f.merge b acc) =
      if f.get b = f.kind.default then f.get acc else f.get b := by
    intro acc
    unfold FieldSpec.merge
    split_ifs
    · rfl
    · exact S.get_set f mem acc _
  unfold Schema.merge
  generalize S.fields = fs at mem apart
  induction fs generalizing a with
  | nil => cases mem
  | cons g gs ih =>
    rw [List.pairwise_cons] at apart
    rw [List.foldl_cons]
    rcases List.mem_cons.mp mem with rfl | tail
    · rw [merge_fields_apart gs (fun q hq => (apart.1 q hq).symm),own]
    · rw [ih _ tail apart.2,(apart.1 f tail).merge_get]

/-! ### Parsing on -/

theorem Schema.parseLoop_fields (fs : List (FieldSpec σ)) (sub : ∀ f ∈ fs, f ∈ S.fields)
    (m acc : σ) (us : List UnknownField) (n : ℕ)
    (fuel : (fs.flatMap (fun f => f.write m)).length ≤ n) :
    S.parseLoop n ⟨acc,us⟩ (fs.flatMap (fun f => f.write m)) =
      some ⟨fs.foldl (fun acc f => f.merge m acc) acc,us⟩ := by
  induction fs generalizing acc n with
  | nil => rw [List.flatMap_nil,Schema.parseLoop_nil,List.foldl_nil]
  | cons f fs ih =>
    have mem := sub f (by simp)
    have rest : ∀ g ∈ fs, g ∈ S.fields := fun g hg => sub g (by simp [hg])
    rw [List.flatMap_cons] at fuel ⊢
    rw [List.foldl_cons]
    by_cases hd : f.get m = f.kind.default
    · have empty : f.write m = [] := by rw [FieldSpec.write,if_pos hd]
      rw [empty,List.nil_append] at fuel ⊢
      rw [FieldSpec.merge,if_pos hd]
      exact ih rest acc n fuel
    · have bounds := f.tag_bounds (S.number_pos f mem) (S.number_lt f mem)
      have bytes : f.write m = UInt8.ofNat f.tag :: f.kind.write (f.get m) := by
        rw [FieldSpec.write,if_neg hd,writeTag_eq bounds.2]
        rfl
      have step := S.parseField_write mem ⟨acc,us⟩ (f.get m) (fs.flatMap (fun f => f.write m))
      rw [writeTag_eq bounds.2,List.singleton_append] at step
      rw [bytes,List.cons_append] at fuel ⊢
      rw [FieldSpec.merge,if_neg hd]
      cases n with
      | zero => simp at fuel
      | succ n =>
        rw [Schema.parseLoop,step,Option.bind_some]
        refine ih rest _ n ?_
        simp only [List.length_cons,List.length_append] at fuel
        omega

theorem Schema.parseLoop_writeTo (m acc : σ) (us : List UnknownField) {n : ℕ}
    (fuel : (S.writeTo m).length ≤ n) :
    S.parseLoop n ⟨acc,us⟩ (S.writeTo m) = some ⟨S.merge acc m,us⟩ :=
  S.parseLoop_fields S.fields (fun _ h => h) m acc us n fuel

/-- Any number of messages in one buffer parse as one, the merge of them all. -/
theorem Schema.parseFrom_stream (ms : List σ) :
    S.parseFrom (StreamFraming.stream S.codec ms) = some ⟨S.mergeAll ms,[]⟩ := by
  have loop : ∀ acc, S.parseLoop (StreamFraming.stream S.codec ms).length ⟨acc,[]⟩
      (StreamFraming.stream S.codec ms) = some ⟨ms.foldl S.merge acc,[]⟩ := by
    induction ms with
    | nil => exact fun acc => S.parseLoop_nil 0 _
    | cons m ms ih =>
      intro acc
      have first := S.parseLoop_writeTo m acc [] le_rfl
      have split : StreamFraming.stream S.codec (m :: ms) =
          S.writeTo m ++ StreamFraming.stream S.codec ms := rfl
      rw [split,List.length_append,S.parseLoop_append _ first,List.foldl_cons]
      exact ih (S.merge acc m)
  exact loop S.defaultInstance

/-- A cut of the stream between messages delivers one message for each read, the merge of
    the messages in it. -/
theorem Schema.delivered_groups (groups : List (List σ)) :
    StreamFraming.delivered S.codec (groups.map (StreamFraming.stream S.codec)) =
      groups.map (fun g => ⟨S.mergeAll g,[]⟩) := by
  induction groups with
  | nil => rfl
  | cons g gs ih =>
    have parsed : S.codec.decode (StreamFraming.stream S.codec g) = some ⟨S.mergeAll g,[]⟩ :=
      S.parseFrom_stream g
    rw [List.map_cons,StreamFraming.delivered,List.filterMap_cons_some parsed,List.map_cons]
    exact congrArg _ ih

end WireFormat
