import Mathlib.Data.List.Basic

set_option autoImplicit false

/-!
# Messages sent over a byte stream without framing

Every read of the stream is decoded on its own as one whole message, and a read
that does not decode is dropped. The weight of a codec bounds from below what any
buffer that decodes to a message must hold; with it the segmentations that deliver
exactly the sent messages are characterised.
-/
namespace StreamFraming

/-- `sent m` is what the receiver gets when it decodes exactly `encode m`. -/
structure BufferCodec (M R β : Type) where
  encode : M → List β
  decode : List β → Option R
  sent : M → R
  weight : List β → ℕ
  weight_append : ∀ xs ys, weight (xs ++ ys) = weight xs + weight ys
  decode_encode : ∀ m, decode (encode m) = some (sent m)
  weight_le : ∀ m xs, decode xs = some (sent m) → weight (encode m) ≤ weight xs
  weight_head : ∀ m b bs, encode m = b :: bs → 0 < weight [b]
  weight_tail : ∀ m xs ys, decode xs = some (sent m) → encode m = xs ++ ys → ys ≠ [] →
    0 < weight ys

/-- A cut of a stream into non-empty reads. -/
structure Segmentation {β : Type} (stream : List β) where
  reads : List (List β)
  nonempty : ∀ r ∈ reads, r ≠ []
  flatten : reads.flatten = stream

variable {M R β : Type} (C : BufferCodec M R β)

def stream (msgs : List M) : List β := (msgs.map C.encode).flatten

def delivered (reads : List (List β)) : List R := reads.filterMap C.decode

/-- A cut of a stream at ends of messages only. -/
structure Grouping where
  groups : List (List M)
  nonempty : ∀ g ∈ groups, stream C g ≠ []

variable {C}

/-- The reads of a grouping have the bytes of all its messages. -/
def Grouping.segmentation (g : Grouping C) : Segmentation (stream C g.groups.flatten) where
  reads := g.groups.map (stream C)
  nonempty := List.forall_mem_map.mpr g.nonempty
  flatten := by
    unfold stream
    rw [List.map_flatten,List.flatten_flatten,List.map_map]
    rfl

theorem delivered_encodings (msgs : List M) :
    delivered C (msgs.map C.encode) = msgs.map C.sent := by
  induction msgs with
  | nil => rfl
  | cons m ms ih =>
    rw [List.map_cons,delivered,List.filterMap_cons_some (C.decode_encode m)]
    exact congrArg (C.sent m :: ·) ih

theorem stream_head (msgs : List M) (b : β) (bs : List β) (h : stream C msgs = b :: bs) :
    0 < C.weight [b] := by
  induction msgs with
  | nil => simp [stream] at h
  | cons m ms ih =>
    rw [stream,List.map_cons,List.flatten_cons] at h
    cases hm : C.encode m with
    | nil =>
      rw [hm] at h
      exact ih h
    | cons c cs =>
      rw [hm,List.cons_append,List.cons.injEq] at h
      rw [←h.1]
      exact C.weight_head m c cs hm

/-- The reads that deliver the messages weigh at least as much as their encodings. -/
theorem stream_weight_le (msgs : List M) (reads : List (List β))
    (h : delivered C reads = msgs.map C.sent) :
    C.weight (stream C msgs) ≤ C.weight reads.flatten := by
  induction reads generalizing msgs with
  | nil =>
    have hm : msgs = [] := by simpa [delivered] using h.symm
    rw [hm]
    exact Nat.le_refl _
  | cons r rs ih =>
    rw [List.flatten_cons,C.weight_append]
    cases hr : C.decode r with
    | none =>
      rw [delivered,List.filterMap_cons_none hr] at h
      have := ih msgs h
      omega
    | some v =>
      rw [delivered,List.filterMap_cons_some hr] at h
      cases msgs with
      | nil => simp at h
      | cons m ms =>
        rw [List.map_cons,List.cons.injEq] at h
        obtain ⟨hv,hrs⟩ := h
        rw [hv] at hr
        have head := C.weight_le m r hr
        have rest := ih ms hrs
        rw [stream,List.map_cons,List.flatten_cons,C.weight_append]
        rw [stream] at rest
        omega

theorem reads_aligned (msgs : List M) (reads : List (List β)) (nonempty : ∀ r ∈ reads, r ≠ [])
    (flatten : reads.flatten = stream C msgs) (h : delivered C reads = msgs.map C.sent) :
    reads = msgs.map C.encode := by
  induction reads generalizing msgs with
  | nil =>
    have hm : msgs = [] := by simpa [delivered] using h.symm
    rw [hm]
    rfl
  | cons r rs ih =>
    obtain ⟨b,r',hb⟩ := List.exists_cons_of_ne_nil (nonempty r (by simp))
    have hrs : ∀ q ∈ rs, q ≠ [] := fun q hq => nonempty q (by simp [hq])
    rw [List.flatten_cons] at flatten
    cases hr : C.decode r with
    | none =>
      rw [delivered,List.filterMap_cons_none hr] at h
      have bound := stream_weight_le msgs rs h
      have first := stream_head msgs b (r' ++ rs.flatten) (by rw [←flatten,hb]; rfl)
      have split := C.weight_append [b] r'
      rw [List.singleton_append,←hb] at split
      rw [←flatten,C.weight_append] at bound
      omega
    | some v =>
      rw [delivered,List.filterMap_cons_some hr] at h
      cases msgs with
      | nil => simp at h
      | cons m ms =>
        rw [List.map_cons,List.cons.injEq] at h
        obtain ⟨hv,hms⟩ := h
        rw [hv] at hr
        have bound := stream_weight_le ms rs hms
        have eq : r ++ rs.flatten = C.encode m ++ stream C ms := flatten
        rcases List.append_eq_append_iff.mp eq with ⟨x,hx,hE⟩ | ⟨x,hx,hE⟩
        · have whole := C.weight_le m r hr
          have hx0 : x = [] := by
            by_contra ne
            have := C.weight_tail m r x hr hx ne
            rw [hx,C.weight_append] at whole
            omega
          rw [hx0,List.append_nil] at hx
          rw [hx0,List.nil_append] at hE
          rw [List.map_cons,hx,ih ms hrs hE hms]
        · cases x with
          | nil =>
            rw [List.append_nil] at hx
            rw [List.nil_append] at hE
            rw [List.map_cons,hx,ih ms hrs hE.symm hms]
          | cons c x =>
            have first := stream_head ms c (x ++ rs.flatten) (by rw [hE]; rfl)
            rw [hE,C.weight_append] at bound
            have split := C.weight_append [c] x
            rw [List.singleton_append] at split
            omega

/-- Exactly the segmentations that put every encoding into a read of its own
    deliver the messages that were sent. -/
theorem delivered_iff_aligned (msgs : List M) (cut : Segmentation (stream C msgs)) :
    delivered C cut.reads = msgs.map C.sent ↔ cut.reads = msgs.map C.encode := by
  constructor
  · exact reads_aligned msgs cut.reads cut.nonempty cut.flatten
  · intro h
    rw [h]
    exact delivered_encodings msgs

end StreamFraming
