/-
A payload as a list of fields.

A field is a scalar, a bit field or a byte run of some kind; it carries what
makes it one that can be read back. Where it begins at a byte, the zeros before it
are those that a flush writes (`Field.write_wrote`) and the rest of a byte that a
byte-aligned read drops (`Field.read_took`), at every offset; so fields that were
written in turn are read back in turn, whatever they are (`writes_wrote`,
`reads_took`).
-/
import PacketWire.Proofs.Script

namespace PacketWire

open Buffer Text

/-! ## What a field comes to -/

inductive Field
  /-- A scalar; a floating-point one is finite. -/
  | scalar (t : ScalarType) (value : t.Value) (valid : t.isValid value = true)
  /-- The low bits of a number. -/
  | bits (value : UInt64) (count : Nat) (pos : 0 < count) (le : count ≤ 64)
  | bytes (run : List UInt8) (nonempty : run ≠ [])
  | text (s : String) (nonempty : s ≠ "")
  /-- Text with a zero after it, and none in it. -/
  | terminated (s : String) (free : 0 ∉ Utf8.encode s)
  | guid (g : Guid)

namespace Field

def coding : Field → Coding
  | scalar t value _ => .bytes (t.encode value)
  | bits value count _ _ => .bits (Bits.ofNat count value.toNat)
  | bytes run _ => .bytes run
  | text s _ => .bytes (Utf8.encode s)
  | terminated s _ => .bytes (Utf8.encode s ++ [0])
  | guid g => .bytes g.encode

def write : Field → Operation
  | scalar t value _ => .write t value
  | bits value count _ _ => .writeBits value count
  | bytes run _ => .append run
  | text s _ => .writeString s
  | terminated s _ => .writeTerminated s
  | guid g => .writeGuid g

def read : Field → Operation
  | scalar t _ _ => .read t
  | bits _ count _ _ => .readBits count
  | bytes run _ => .readBytes run.length
  | text s _ => .readString (Utf8.encode s).length
  | terminated _ _ => .readTerminated
  | guid _ => .readGuid

/-- What reading it back gives: its value, of a bit field the low bits. -/
def answer : Field → Answer
  | scalar t value _ => .scalar t value
  | bits value count _ _ => .number (UInt64.ofNat (value.toNat % 2 ^ count))
  | bytes run _ => .bytes run
  | text s _ => .text s
  | terminated s _ => .text s
  | guid g => .guid g

end Field

/-! ## Writing a field -/

theorem Field.coding?_write (f : Field) : f.write.coding? = some f.coding := by
  cases f with
  | scalar t value _ => rfl
  | bits value count hpos hle => exact if_neg (by omega)
  | bytes run hne => exact if_neg hne
  | text s hne => exact congrArg some (if_neg hne)
  | terminated s _ => rfl
  | guid g => rfl

/-- A field that there is room for is written after what is there. -/
theorem Field.write_wrote {b : Buffer} (h : b.wpos ≤ b.size) (hp : b.pending.length < 8) (f : Field)
    (room : f.coding.stop b.bitWritePos / 8 ≤ b.limit) :
    ∃ b', f.write.run.run b = .ok .done b' ∧ Wrote b b' (f.coding.after b.bitWritePos) :=
  Operation.run_wrote h hp f.coding?_write room

/-! ## Reading a field -/

/-- Where a byte run comes next, a byte-aligned read of its length takes it. -/
theorem aligned_took {b : Buffer} (ho : b.Ordered) (hu : b.unread.length < 8) {pos : Nat}
    (haligned : (pos + b.readable.length) % 8 = 0) {run : List UInt8} {rest : List Bool}
    (h : b.readable = (Coding.bytes run).after pos ++ rest) :
    b.rpos + run.length ≤ b.wpos ∧ b.bytesAt b.rpos run.length = run ∧
      Took b (b.passed run.length) ((Coding.bytes run).after pos) := by
  obtain ⟨hunread, tail, htail⟩ := aligned_between ho hu haligned h
  have hle : b.rpos + run.length ≤ b.wpos := by
    have hlen := length_between ho
    have hr := ho.rpos_le
    rw [htail, List.length_append, remaining] at hlen
    omega
  have hrun : b.bytesAt b.rpos run.length = run := by
    have hbetween := between_eq_append hle
    rw [htail] at hbetween
    refine (List.append_inj_left hbetween.symm ?_)
    exact length_bytesAt (Nat.le_trans hle ho.wpos_le)
  have took := took_passed ho hle
  rw [hunread, hrun] at took
  exact ⟨hle, hrun, took⟩

theorem readTerminated_took {b : Buffer} (ho : b.Ordered) (hu : b.unread.length < 8) {pos : Nat}
    (haligned : (pos + b.readable.length) % 8 = 0) {s : String} (hfree : 0 ∉ Utf8.encode s)
    {rest : List Bool} (h : b.readable = (Coding.bytes (Utf8.encode s ++ [0])).after pos ++ rest) :
    ∃ b', readTerminated.run b = .ok s b' ∧
      Took b b' ((Coding.bytes (Utf8.encode s ++ [0])).after pos) := by
  obtain ⟨hle, -, took⟩ := aligned_took ho hu haligned h
  obtain ⟨-, tail, htail⟩ := aligned_between ho hu haligned h
  rw [List.length_append, List.length_singleton] at hle took
  have hw := ho.wpos_le
  have hzero : 0 ∈ b.between := by simp [htail]
  have hfirst : b.between.takeWhile (· != 0) = Utf8.encode s := by
    have hall : ∀ x ∈ Utf8.encode s, (x != 0) = true := fun x hx => by
      rw [bne_iff_ne]
      exact fun hx0 => hfree (hx0 ▸ hx)
    rw [htail, List.append_assoc, List.takeWhile_append_of_pos hall]
    simp
  refine ⟨_, ?_, took⟩
  rw [readTerminated_run, if_neg (by omega), if_neg (by omega), if_pos hzero, hfirst,
    Utf8.decode?_encode]

theorem Field.read_took {b : Buffer} (ho : b.Ordered) (hu : b.unread.length < 8) {pos : Nat}
    (haligned : (pos + b.readable.length) % 8 = 0) (f : Field) {rest : List Bool}
    (h : b.readable = f.coding.after pos ++ rest) :
    ∃ b', f.read.run.run b = .ok f.answer b' ∧ Took b b' (f.coding.after pos) := by
  have hw := ho.wpos_le
  cases f with
  | scalar t value hvalid =>
    obtain ⟨hle, hbytes, took⟩ := aligned_took ho hu haligned h
    rw [ScalarType.length_encode] at hle hbytes took
    have hrun : (Buffer.read t).run b = .ok value (b.passed t.size) := by
      rw [read_run, if_neg (by omega), if_neg (by omega), hbytes, ScalarType.decode_encode, if_pos hvalid]
    exact ⟨_, run_map_ok.mpr ⟨_, hrun, rfl⟩, took⟩
  | bits value count hpos hle =>
    have hlen : (Bits.ofNat count value.toNat).length = count := Bits.length_ofNat _ _
    simp only [coding, Coding.after] at h
    obtain ⟨b', hrun, took⟩ := readBits_took ho hu (by omega) (by omega) h
    rw [hlen, Bits.toNat_ofNat] at hrun
    exact ⟨b', run_map_ok.mpr ⟨_, hrun, rfl⟩, took⟩
  | bytes run _ =>
    obtain ⟨hle, hbytes, took⟩ := aligned_took ho hu haligned h
    have hrun : (readBytes run.length).run b = .ok run (b.passed run.length) := by
      rw [readBytes_run, if_neg (by omega), if_neg (by omega), hbytes]
    exact ⟨_, run_map_ok.mpr ⟨_, hrun, rfl⟩, took⟩
  | text s _ =>
    obtain ⟨hle, hbytes, took⟩ := aligned_took ho hu haligned h
    have hrun : (readString (Utf8.encode s).length).run b = .ok s (b.passed (Utf8.encode s).length) := by
      rw [readString_run, if_neg (by omega), if_neg (by omega), hbytes, Utf8.decode?_encode]
    exact ⟨_, run_map_ok.mpr ⟨_, hrun, rfl⟩, took⟩
  | terminated s hfree =>
    obtain ⟨b', hrun, took⟩ := readTerminated_took ho hu haligned hfree h
    exact ⟨b', run_map_ok.mpr ⟨_, hrun, rfl⟩, took⟩
  | guid g =>
    obtain ⟨hle, hbytes, took⟩ := aligned_took ho hu haligned h
    rw [Guid.length_encode] at hle hbytes took
    have hrun : Guid.read.run b = .ok g (b.passed Guid.size) := by
      rw [readGuid_run, if_neg (by omega), if_neg (by omega), hbytes, Guid.decode_encode]
    exact ⟨_, run_map_ok.mpr ⟨_, hrun, rfl⟩, took⟩

/-! ## Fields in turn -/

/-- The bits of the fields in turn, after `pos` bits, and the zeros that fill the last byte. -/
def encodeFrom (pos : Nat) : List Field → List Bool
  | [] => padding pos
  | f :: fields => f.coding.after pos ++ encodeFrom (f.coding.stop pos) fields

def stopFrom (pos : Nat) : List Field → Nat
  | [] => (pos + 7) / 8
  | f :: fields => stopFrom (f.coding.stop pos) fields

/-- The number of bytes of the fields in turn. -/
def encodedSize (fields : List Field) : Nat := stopFrom 0 fields

theorem add_length_encodeFrom : ∀ (fields : List Field) (pos : Nat),
    pos + (encodeFrom pos fields).length = 8 * stopFrom pos fields
  | [], pos => by
    simp only [encodeFrom, stopFrom, length_padding]
    omega
  | f :: fields, pos => by
    rw [encodeFrom, List.length_append, ← Nat.add_assoc, f.coding.add_length_after,
      add_length_encodeFrom fields, stopFrom]

theorem inTurn_writes : ∀ (fields : List Field) (pos : Nat),
    Coding.inTurn pos (codings (fields.map Field.write ++ [.flushBits])) = encodeFrom pos fields
  | [], pos => by
    have hflush : Operation.flushBits.coding = .bytes [] := rfl
    simp [codings, hflush, Coding.inTurn, Coding.after, Bits.ofBytes, encodeFrom]
  | f :: fields, pos => by
    rw [List.map_cons, List.cons_append, codings_cons, Coding.inTurn, Operation.coding_eq f.coding?_write,
      inTurn_writes, encodeFrom]

theorem stopAll_writes (fields : List Field) (pos : Nat) :
    Coding.stopAll pos (codings (fields.map Field.write ++ [.flushBits])) = 8 * stopFrom pos fields := by
  rw [← Coding.add_length_inTurn, inTurn_writes, add_length_encodeFrom]

theorem writes_wrote (fields : List Field) {b : Buffer} (h : b.wpos ≤ b.size) (hp : b.pending.length < 8)
    (room : stopFrom b.bitWritePos fields ≤ b.limit) :
    ∃ b', (performAll (fields.map Field.write ++ [.flushBits])).run b =
        .ok (List.replicate (fields.length + 1) .done) b' ∧
      Wrote b b' (encodeFrom b.bitWritePos fields) := by
  have possible : ∀ op ∈ fields.map Field.write ++ [.flushBits], op.coding?.isSome := fun op hop => by
    rcases List.mem_append.mp hop with hfield | hflush
    · obtain ⟨f, -, rfl⟩ := List.mem_map.mp hfield
      rw [f.coding?_write]
      rfl
    · rw [List.mem_singleton.mp hflush]
      rfl
  have hroom : Coding.stopAll b.bitWritePos (codings (fields.map Field.write ++ [.flushBits])) / 8 ≤ b.limit := by
    rw [stopAll_writes]
    omega
  have hrun := performAll_run h hp possible hroom
  have wrote := afterAll_wrote h hp (fun op hop => Operation.isWrite_of_coding? (possible op hop)) hroom
  rw [List.length_append, List.length_map, List.length_singleton] at hrun
  rw [inTurn_writes] at wrote
  exact ⟨_, hrun, wrote⟩

/-- Fields that come next are read in turn as their values, and then no byte is left. -/
theorem reads_took : ∀ (fields : List Field) {b : Buffer} {pos : Nat}, b.Ordered →
    b.unread.length < 8 → b.readable = encodeFrom pos fields →
    ∃ b', (performAll (fields.map Field.read)).run b = .ok (fields.map Field.answer) b' ∧
      b'.remaining = 0
  | [], b, pos, ho, hu, h => by
    have hlen := length_readable ho
    rw [h, encodeFrom, length_padding, availableBits] at hlen
    exact ⟨b, rfl, by omega⟩
  | f :: fields, b, pos, ho, hu, h => by
    have haligned : (pos + b.readable.length) % 8 = 0 := by
      rw [h, add_length_encodeFrom]
      exact Nat.mul_mod_right 8 _
    obtain ⟨b₁, hrun₁, took₁⟩ := f.read_took ho hu haligned h
    have hrest : b₁.readable = encodeFrom (f.coding.stop pos) fields :=
      List.append_cancel_left (took₁.readable.symm.trans h)
    obtain ⟨b₂, hrun₂, hdone⟩ := reads_took fields took₁.ordered took₁.unread_lt hrest
    exact ⟨b₂, (performAll_cons_run hrun₁).mpr hrun₂, hdone⟩

/-- What was written to a buffer just made, under a ceiling that it fits, is
there to read. -/
theorem writes_readable {b : Buffer} (made : Made b) (empty : b.isEmpty) (fields : List Field)
    (room : encodedSize fields ≤ b.limit) :
    ∃ full, (performAll (fields.map Field.write ++ [.flushBits])).run b =
        .ok (List.replicate (fields.length + 1) .done) full ∧
      full.readable = encodeFrom 0 fields ∧ full.Ordered ∧ full.unread = [] := by
  have hstart := made.bitWritePos_eq_zero empty
  obtain ⟨full, hwrite, wrote⟩ := writes_wrote fields made.ordered.wpos_le made.wellFormed.pending_lt
    (by rwa [hstart])
  rw [hstart] at wrote
  have hwhole : (encodeFrom 0 fields).length % 8 = 0 := by
    have := add_length_encodeFrom fields 0
    omega
  exact ⟨full, hwrite, wrote.readable_eq made empty hwhole⟩

/-- Whatever the fields, writing them in turn to a buffer just made, under a
ceiling that they fit, and reading them back in turn gives every value. -/
theorem read_written {b : Buffer} (made : Made b) (empty : b.isEmpty) (fields : List Field)
    (room : encodedSize fields ≤ b.limit) :
    ∃ full done, (performAll (fields.map Field.write ++ [.flushBits])).run b =
          .ok (List.replicate (fields.length + 1) .done) full ∧
        full.remaining = encodedSize fields ∧
      (performAll (fields.map Field.read)).run full = .ok (fields.map Field.answer) done ∧
        done.remaining = 0 := by
  obtain ⟨full, hwrite, hreadable, hordered, hunread⟩ := writes_readable made empty fields room
  obtain ⟨done, hread, hdone⟩ := reads_took fields hordered (by simp [hunread]) hreadable
  refine ⟨full, done, hwrite, ?_, hread, hdone⟩
  have hlen := add_length_encodeFrom fields 0
  rw [← hreadable, length_readable hordered, availableBits, hunread, List.length_nil] at hlen
  unfold encodedSize
  omega

/-- Fields of every kind, bit fields between the others. -/
def mixedFields : List Field :=
  [.bits 13 3 (by decide) (by decide), .text "ab" (by decide), .bits 1 1 (by decide) (by decide),
    .scalar .f32 ⟨0xBF800000⟩ (by decide), .terminated "" (by decide), .guid ⟨1, 2⟩,
    .bytes [0, 255] (by decide), .bits 0xFEDCBA9876543210 64 (by decide) (by decide),
    .bits 1 1 (by decide) (by decide)]

/-- They take thirty-six bytes, and fit under a ceiling of as many. -/
theorem read_written_mixedFields :
    encodedSize mixedFields = 36 ∧ ∃ full done,
      (performAll (mixedFields.map Field.write ++ [.flushBits])).run (.withLimit 0 36) =
          .ok (List.replicate 10 .done) full ∧
        full.remaining = encodedSize mixedFields ∧
      (performAll (mixedFields.map Field.read)).run full = .ok (mixedFields.map Field.answer) done ∧
        done.remaining = 0 := by
  have hsize : encodedSize mixedFields = 36 := by decide
  exact ⟨hsize, read_written (.fresh (.withLimit 0 36)) rfl mixedFields hsize.le⟩

end PacketWire
