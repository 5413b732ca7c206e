import SeeU.ParserAgreement

set_option autoImplicit false

/-!
# Buffers that the client reads for ever

The size of a skipped field that takes six bytes is read as a signed number, and a
negative one takes the cursor back. With the size `-7` it comes to the tag of the same
field again.
-/
namespace SeeU.Jspb
open WireFormat WebsocketPipeline

/-! ### More rounds give the same outcome -/

section Stability
variable {α β : Type}

/-- A computation that has ended is the same with more rounds. -/
def Stable (x y : Except Failure α) : Prop := x ≠ .error .running → y = x

theorem Stable.refl (x : Except Failure α) : Stable x x := fun _ => rfl

theorem Stable.running (y : Except Failure α) : Stable (.error .running) y :=
  fun ended => absurd rfl ended

theorem Stable.bind {x y : Except Failure α} {f g : α → Except Failure β} (h : Stable x y)
    (next : ∀ a, Stable (f a) (g a)) : Stable (x >>= f) (y >>= g) := by
  intro ended
  cases x with
  | error e =>
    have failed : (.error e : Except Failure α) ≠ .error .running := by
      intro eq
      cases eq
      exact ended rfl
    rw [h failed]
    rfl
  | ok a =>
    rw [h (fun eq => by cases eq)]
    exact next a ended

end Stability

theorem skipFieldWith_stable {f g : ℕ → BinaryReader → Except Failure BinaryReader}
    (h : ∀ a r, Stable (f a r) (g a r)) (r : BinaryReader) :
    Stable (r.skipFieldWith f) (r.skipFieldWith g) := by
  unfold BinaryReader.skipFieldWith
  split
  · exact .refl _
  · exact .refl _
  · exact .refl _
  · exact h _ _
  · exact .refl _
  · exact .refl _

theorem skipGroup_stable (n a : ℕ) (r : BinaryReader) :
    Stable (BinaryReader.skipGroup n a r) (BinaryReader.skipGroup (n + 1) a r) := by
  induction n generalizing a r with
  | zero => exact .running _
  | succ n ih =>
    rw [BinaryReader.skipGroup,BinaryReader.skipGroup.eq_2]
    refine .bind (.refl _) ?_
    intro next
    cases next with
    | none => exact .refl _
    | some r =>
      dsimp only
      split_ifs
      · exact .refl _
      · exact .refl _
      · exact .bind (skipFieldWith_stable ih r) (ih a)

theorem deserialize_stable (n : ℕ) (msg : WsMsg) (r : BinaryReader) :
    Stable (deserializeBinaryFromReader n msg r) (deserializeBinaryFromReader (n + 1) msg r) := by
  induction n generalizing msg r with
  | zero => exact .running _
  | succ n ih =>
    rw [deserializeBinaryFromReader,deserializeBinaryFromReader.eq_2]
    refine .bind (.refl _) ?_
    intro next
    cases next with
    | none => exact .refl _
    | some r =>
      dsimp only
      split_ifs
      · exact .refl _
      · split
        · exact .bind (.refl _) (fun read => ih _ _)
        · exact .bind (.refl _) (fun read => ih _ _)
        · exact .bind (.refl _) (fun read => ih _ _)
        · exact .bind (skipFieldWith_stable (skipGroup_stable n) r) (fun r => ih msg r)

/-- A loop that does not end with enough rounds does not end with fewer. -/
theorem running_of_enough {n : ℕ} {msg : WsMsg} {r : BinaryReader}
    (enough : ∀ fuel, n < fuel → deserializeBinaryFromReader fuel msg r = .error .running)
    (fuel : ℕ) : deserializeBinaryFromReader fuel msg r = .error .running := by
  have back (k : ℕ) : deserializeBinaryFromReader (fuel + k) msg r = .error .running →
      deserializeBinaryFromReader fuel msg r = .error .running := by
    induction k with
    | zero => exact id
    | succ k ih =>
      intro running
      by_contra ended
      have stable := deserialize_stable (fuel + k) msg r (fun h => ended (ih h))
      rw [Nat.add_assoc] at stable
      rw [stable] at running
      exact ended (ih running)
  exact back (n + 1) (enough _ (by omega))

/-! ### The field that leads back to itself -/

/-- The tag of a field 4 of the wire type 2, and `-7` in six bytes. -/
def backwards : Bytes := [34,0xf9,0xff,0xff,0xff,0xff,0x01]

section Backwards
variable {rest : Bytes} {d d' : BinaryDecoder}

theorem advanced_bytes {n value v : ℤ} (h : d.advanced n value = .ok (v,d')) :
    d'.bytes = d.bytes := by
  unfold BinaryDecoder.advanced BinaryDecoder.advance at h
  split_ifs at h
  · cases h
    rfl
  · cases h

theorem readUnsignedVarint32_bytes {v : ℤ} (h : d.readUnsignedVarint32 = .ok (v,d')) :
    d'.bytes = d.bytes := by
  unfold BinaryDecoder.readUnsignedVarint32 at h
  dsimp only at h
  split_ifs at h
  · exact advanced_bytes h
  · exact advanced_bytes h
  · exact advanced_bytes h
  · exact advanced_bytes h
  · exact advanced_bytes h
  · split at h
    · cases h
    · exact advanced_bytes h

theorem nextField_bytes {r r' : BinaryReader} (h : r.nextField = .ok (some r')) :
    r'.decoder.bytes = r.decoder.bytes := by
  unfold BinaryReader.nextField at h
  split_ifs at h
  · cases h
  cases read : r.decoder.readUnsignedVarint32 with
  | error e =>
    rw [read] at h
    cases h
  | ok p =>
    rw [read] at h
    simp only [bind,Except.bind] at h
    split_ifs at h
    cases h
    exact readUnsignedVarint32_bytes read

/-- The bytes that are left say where the cursor is. -/
theorem Ahead.cursor_eq {used : Bytes} (h : Ahead (used ++ rest) d) (h' : Ahead rest d')
    (bytes : d'.bytes = d.bytes) : d'.cursor = d.cursor + used.length := by
  have before := h.cursor_le.2
  have after := h'.cursor_le.2
  rw [List.length_append] at before
  rw [bytes] at after
  push_cast at before
  omega

theorem backwards_size (rest : Bytes) :
    readVarint 10 (backwards.tail ++ rest) = some (2 ^ 36 - 7,rest) := by
  have written : writeVarint 9 (2 ^ 36 - 7) = backwards.tail := by decide
  rw [←written]
  exact readVarint_writeVarint 9 _ rest (by decide)

theorem backwards_skip (ahead : Ahead (backwards ++ rest) d)
    (ahead' : Ahead (backwards.tail ++ rest) d') (bytes : d'.bytes = d.bytes)
    (number wireType : ℕ) :
    BinaryReader.skipDelimitedField ⟨d',number,wireType⟩ = .ok ⟨d,number,wireType⟩ := by
  obtain ⟨d2,read,ahead2⟩ := readUnsignedVarint32_eq ahead' (backwards_size rest)
  have bytes2 := (readUnsignedVarint32_bytes read).trans bytes
  have cursor := ahead.cursor_eq ahead2 bytes2
  have bound := ahead.cursor_le
  have length : (backwards.tail ++ rest).length - rest.length = 6 := by
    rw [List.length_append]
    exact Nat.add_sub_cancel_right 6 rest.length
  have value : varintValue 6 (2 ^ 36 - 7) = -7 := by decide
  have back : d2.advance (-7) = .ok d := by
    have same : d2.cursor + -7 = d.cursor := by
      rw [cursor]
      exact Int.add_neg_cancel_right _ 7
    rw [BinaryDecoder.advance,same,bytes2,if_pos (by omega)]
  rw [BinaryReader.skipDelimitedField]
  simp only [read,length,value,bind,Except.bind,back]

/-- A round ends where it began. -/
theorem backwards_round (ahead : Ahead (backwards ++ rest) d) (msg : WsMsg)
    (k number wireType : ℕ) :
    deserializeBinaryFromReader (k + 1) msg ⟨d,number,wireType⟩ =
      deserializeBinaryFromReader k msg ⟨d,4,2⟩ := by
  have tag : readTag (backwards ++ rest) = some (34,backwards.tail ++ rest) := rfl
  obtain ⟨d',next,ahead'⟩ := (nextField_eq (r := ⟨d,number,wireType⟩) ahead tag).1 (by decide)
  rw [deserializeBinaryFromReader,next]
  change Except.bind (BinaryReader.skipDelimitedField ⟨d',4,2⟩) _ = _
  rw [backwards_skip ahead ahead' (nextField_bytes next)]
  rfl

theorem backwards_running (ahead : Ahead (backwards ++ rest) d) (msg : WsMsg)
    (k number wireType : ℕ) :
    deserializeBinaryFromReader k msg ⟨d,number,wireType⟩ = .error .running := by
  induction k generalizing number wireType with
  | zero => rfl
  | succ k ih => rw [backwards_round ahead,ih]

end Backwards

/-- The server does not skip a field of a negative size. -/
theorem backwards_rejected (rest : Bytes) :
    WireFormat.skipField 34 (backwards.tail ++ rest) = none := by
  have negative : ¬(2 ^ 36 - 7) % 2 ^ 32 < 2 ^ 31 := by decide
  change (WireFormat.readBytes (backwards.tail ++ rest)).map Prod.snd = none
  rw [WireFormat.readBytes,backwards_size,Option.bind_some,dif_neg (fun h => negative h.1),
    Option.map_none]

/-- Behind any buffer that the server parses, its parser rejects the field. The client's
    reader goes on for ever, exactly unless it throws before, at a field of a declared
    number that the parser has kept as unknown. -/
theorem reader_never_ends {bs : Bytes} {q : Parsed WebsocketPipeline.WsMsg}
    (h : WsMsg.schema.parseFrom bs = some q) (rest : Bytes) :
    WsMsg.schema.parseFrom (bs ++ (backwards ++ rest)) = none ∧
      ((∀ fuel, deserializeBinary fuel (bs ++ (backwards ++ rest)) = .error .running) ↔
        ∀ u ∈ q.unknownFields, ¬Mismatched u) := by
  constructor
  · have tag : readTag (backwards ++ rest) = some (34,backwards.tail ++ rest) := rfl
    have field : WsMsg.schema.field 34 = none := rfl
    rw [Schema.parseFrom] at h ⊢
    rw [List.length_append,Schema.parseLoop_append _ h]
    change Schema.parseLoop _ ((backwards.tail ++ rest).length + 1) _
      (34 :: (backwards.tail ++ rest)) = none
    rw [Schema.parseLoop,Schema.parseField]
    change ((readTag (backwards ++ rest)).bind _).bind _ = none
    simp only [tag,Option.bind_some,field,backwards_rejected,Option.map_none,Option.bind_none]
  · constructor
    · intro running u mem mismatched
      have throws := (parsed_agrees (backwards ++ rest) h (Nat.lt_succ_self _)).2
        ⟨u,mem,mismatched⟩
      rw [running] at throws
      cases throws
    · intro plain
      refine running_of_enough (n := (bs ++ (backwards ++ rest)).length) ?_
      intro fuel enough
      obtain ⟨k,msg,⟨d,number,wireType⟩,_,ahead,_,eq⟩ :=
        (parsed_agrees (backwards ++ rest) h enough).1 plain
      rw [eq]
      exact backwards_running ahead _ _ _ _

/-- A message with a field 5 that neither side knows. -/
def newerMessage : Bytes := [8,3,42,1,7]

theorem newer_message_never_ends :
    WsMsg.schema.parseFrom (newerMessage ++ (backwards ++ [])) = none ∧
      ∀ fuel, deserializeBinary fuel (newerMessage ++ (backwards ++ [])) = .error .running := by
  have parsed : WsMsg.schema.parseFrom newerMessage =
      some ⟨⟨3,Utf8String.empty,ByteString.empty⟩,[⟨42,[1,7]⟩]⟩ := by decide
  have never := reader_never_ends parsed []
  exact ⟨never.1,never.2.mpr (by decide)⟩

end SeeU.Jspb
