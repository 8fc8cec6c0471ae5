/-
What was read, written back.

Fields that are read in turn can be written in turn, each as a field of its own
type. That gives the bytes that were read (`written_back`), but for the two things
that no value tells of: bits that were skipped to come to a byte, which are zeros
then, and which byte it was that stood for a truth (`canonicalFrom`).

Each value that is read makes a `Field`, which has what it takes to be written
(`FieldType.read_recovered`); so what is written of fields is known already.
-/
import PacketWire.Proofs.Field

namespace PacketWire

open Buffer Text

/-! ## Types of fields -/

/-- The type of a field, and what its reader is told. -/
inductive FieldType
  | scalar (t : ScalarType)
  | bits (count : Nat)
  | bytes (len : Nat) (pos : 0 < len)
  | text (len : Nat) (pos : 0 < len)
  | terminated
  | guid

namespace FieldType

/-- What a field of the type holds. -/
abbrev Value : FieldType → Type
  | scalar t => t.Value
  | bits _ => UInt64
  | bytes _ _ => List UInt8
  | text _ _ => String
  | terminated => String
  | guid => Guid

/-- The reader of the type. -/
def read : (f : FieldType) → BufferM f.Value
  | scalar t => Buffer.read t
  | bits count => readBits count
  | bytes len _ => readBytes len
  | text len _ => readString len
  | terminated => readTerminated
  | guid => Guid.read

/-- The matching writer. -/
def write : (f : FieldType) → f.Value → Operation
  | scalar t, value => .write t value
  | bits count, value => .writeBits value count
  | bytes _ _, run => .append run
  | text _ _, s => .writeString s
  | terminated, s => .writeTerminated s
  | guid, g => .writeGuid g

/-- The zeros in front of a field, after `pos` bits. -/
def lead (pos : Nat) : FieldType → List Bool
  | bits _ => []
  | _ => padding pos

/-- The number of bits of a value. -/
def width : (f : FieldType) → f.Value → Nat
  | scalar t, _ => 8 * t.size
  | bits count, _ => count
  | bytes len _, _ => 8 * len
  | text len _, _ => 8 * len
  | terminated, s => 8 * ((Utf8.encode s).length + 1)
  | guid, _ => 8 * Guid.size

/-- What a field's bits are written back as. The byte of a truth value becomes
one if any of its bits is set, and all others stay. -/
def canonical : FieldType → List Bool → List Bool
  | scalar .bool, field => List.replicate 7 false ++ [field.any id]
  | _, field => field

theorem canonical_of_ne_bool {f : FieldType} (h : f ≠ .scalar .bool) (field : List Bool) :
    f.canonical field = field := by
  unfold canonical
  split
  · exact absurd rfl h
  · rfl

end FieldType

/-- A value that was read, with the type of its field. -/
structure Reading where
  type : FieldType
  value : type.Value

namespace Reading

def write (r : Reading) : Operation := r.type.write r.value

def width (r : Reading) : Nat := r.type.width r.value

end Reading

/-- Reads fields of these types in turn. -/
def readAll : List FieldType → BufferM (List Reading)
  | [] => return []
  | f :: types => do
    let value ← f.read
    let readings ← readAll types
    return ⟨f, value⟩ :: readings

/-- The bits that were read, after `pos` of them, as they are written back: with
zeros for those that were skipped in front of a field or behind the last one. -/
def canonicalFrom (pos : Nat) : List Reading → List Bool → List Bool
  | [], _ => padding pos
  | r :: readings, bits =>
    let start := (r.type.lead pos).length
    let stop := start + r.width
    r.type.lead pos ++ r.type.canonical ((bits.drop start).take r.width) ++
      canonicalFrom (pos + stop) readings (bits.drop stop)

/-! ## One field -/

/-- From `b` to `b'` a value of the type was read from the bits `taken`, behind
bits that were skipped, and this is the field that it is written as. -/
structure FieldType.Recovered (f : FieldType) (v : f.Value) (pos : Nat) (b b' : Buffer)
    (skipped taken : List Bool) (field : Field) : Prop where
  took : Took b b' (skipped ++ taken)
  length_skipped : skipped.length = (f.lead pos).length
  length_taken : taken.length = f.width v
  write : field.write = f.write v
  bits : field.coding.after pos = f.lead pos ++ f.canonical taken

/-- What is left of a byte begun is skipped for a byte run. -/
theorem recovered_passed {f : FieldType} {v : f.Value} {pos len : Nat} {b : Buffer} (ho : b.Ordered)
    (hu : b.unread.length < 8) (haligned : (pos + b.readable.length) % 8 = 0)
    (hle : b.rpos + len ≤ b.wpos) {field : Field} {run : List UInt8} (lead : f.lead pos = padding pos)
    (width : f.width v = 8 * len) (write : field.write = f.write v) (coding : field.coding = .bytes run)
    (canonical : Bits.ofBytes run = f.canonical (Bits.ofBytes (b.bytesAt b.rpos len))) :
    f.Recovered v pos b (b.passed len) b.unread (Bits.ofBytes (b.bytesAt b.rpos len)) field where
  took := took_passed ho hle
  length_skipped := by rw [lead, length_unread_eq ho hu haligned]
  length_taken := by
    rw [Bits.length_ofBytes, length_bytesAt (Nat.le_trans hle ho.wpos_le), width]
  write := write
  bits := by rw [coding, Coding.after, lead, canonical]

theorem ofBytes_bool (byte : UInt8) : Bits.ofBytes [if byte = 0 then 0 else 1] =
    (FieldType.scalar .bool).canonical (Bits.ofBytes [byte]) := by
  have hany : (Bits.ofBytes [byte]).any id = (byte != 0) := by
    rw [Bits.ofBytes, List.flatMap_singleton, Bits.any_ofByte]
  rw [FieldType.canonical, hany]
  by_cases hbyte : byte = 0
  · subst hbyte
    rfl
  · rw [if_neg hbyte, bne_iff_ne.mpr hbyte]
    rfl

theorem scalar_recovered {t : ScalarType} {v : t.Value} {b b' : Buffer} (ho : b.Ordered)
    (hu : b.unread.length < 8) {pos : Nat} (haligned : (pos + b.readable.length) % 8 = 0)
    (h : (Buffer.read t).run b = .ok v b') :
    ∃ skipped taken field, (FieldType.scalar t).Recovered v pos b b' skipped taken field := by
  rw [read_run] at h
  obtain ⟨hle, hlen, h⟩ := fits_of_ok h
  split at h
  next hvalid =>
    cases h
    refine ⟨_, _, .scalar t _ hvalid, recovered_passed ho hu haligned hle rfl rfl rfl rfl ?_⟩
    by_cases ht : t = .bool
    · subst ht
      obtain ⟨byte, hbyte⟩ := List.length_eq_one_iff.mp hlen
      rw [hbyte, ScalarType.encode_decode_bool]
      exact ofBytes_bool byte
    · rw [ScalarType.encode_decode ht hlen, FieldType.canonical_of_ne_bool (by simpa using ht)]
  · cases h

theorem bits_recovered {count : Nat} {v : UInt64} {b b' : Buffer} (ho : b.Ordered)
    (hu : b.unread.length < 8) (pos : Nat) (h : (readBits count).run b = .ok v b') :
    ∃ skipped taken field, (FieldType.bits count).Recovered v pos b b' skipped taken field := by
  have hcount : ¬ (count = 0 ∨ 64 < count) ∧ ¬ b.availableBits < count := by
    rw [readBits_run_of_le ho.rpos_le] at h
    split at h
    · cases h
    next hcount =>
    split at h
    · cases h
    next havailable => exact ⟨hcount, havailable⟩
  obtain ⟨hcount, havailable⟩ := hcount
  have hle : count ≤ b.readable.length := by rw [length_readable ho]; omega
  have hlen : (b.readable.take count).length = count := List.length_take_of_le hle
  obtain ⟨v', b₁, hrun, hv, took⟩ := readBits_front ho hu (by omega) (by omega) hle
  rw [h] at hrun
  cases hrun
  have hsame := Bits.ofNat_toNat (b.readable.take count)
  rw [hlen, ← hv] at hsame
  refine ⟨[], b.readable.take count, .bits v count (by omega) (by omega), took, rfl, hlen, rfl, ?_⟩
  simp only [Field.coding, Coding.after, hsame]
  rfl

theorem bytes_recovered {len : Nat} (hpos : 0 < len) {v : List UInt8} {b b' : Buffer} (ho : b.Ordered)
    (hu : b.unread.length < 8) {pos : Nat} (haligned : (pos + b.readable.length) % 8 = 0)
    (h : (readBytes len).run b = .ok v b') :
    ∃ skipped taken field, (FieldType.bytes len hpos).Recovered v pos b b' skipped taken field := by
  rw [readBytes_run] at h
  obtain ⟨hle, hlen, h⟩ := fits_of_ok h
  cases h
  exact ⟨_, _, .bytes _ (List.ne_nil_of_length_pos (by rw [hlen]; exact hpos)),
    recovered_passed ho hu haligned hle rfl rfl rfl rfl rfl⟩

theorem text_recovered {len : Nat} (hpos : 0 < len) {v : String} {b b' : Buffer} (ho : b.Ordered)
    (hu : b.unread.length < 8) {pos : Nat} (haligned : (pos + b.readable.length) % 8 = 0)
    (h : (readString len).run b = .ok v b') :
    ∃ skipped taken field, (FieldType.text len hpos).Recovered v pos b b' skipped taken field := by
  rw [readString_run] at h
  obtain ⟨hle, hlen, h⟩ := fits_of_ok h
  split at h
  next hdecode =>
    cases h
    have hbytes := Utf8.encode_of_decode? hdecode
    have hne : v ≠ "" := by
      rintro rfl
      rw [← hbytes, Utf8.encode_eq_nil_iff.mpr rfl, List.length_nil] at hlen
      omega
    exact ⟨_, _, .text v hne, recovered_passed ho hu haligned hle rfl rfl rfl rfl (by rw [hbytes]; rfl)⟩
  · cases h

theorem terminated_recovered {v : String} {b b' : Buffer} (ho : b.Ordered) (hu : b.unread.length < 8)
    {pos : Nat} (haligned : (pos + b.readable.length) % 8 = 0) (h : readTerminated.run b = .ok v b') :
    ∃ skipped taken field, FieldType.terminated.Recovered v pos b b' skipped taken field := by
  rw [readTerminated_run] at h
  split at h
  · cases h
  split at h
  · cases h
  split at h
  next hzero =>
    split at h
    next hdecode =>
      cases h
      have hbytes := Utf8.encode_of_decode? hdecode
      have hle := Nat.not_lt.mp (terminated_le hzero)
      have hfree : 0 ∉ Utf8.encode v := by
        rw [hbytes]
        intro hmem
        simpa using List.mem_takeWhile_imp hmem
      have hrun : b.bytesAt b.rpos ((b.between.takeWhile (· != 0)).length + 1) = Utf8.encode v ++ [0] := by
        rw [← take_between ho hle, take_terminated hzero, hbytes]
      exact ⟨_, _, .terminated v hfree, recovered_passed ho hu haligned hle rfl
        (by rw [← hbytes]; rfl) rfl rfl (by rw [hrun]; rfl)⟩
    · cases h
  · cases h

theorem guid_recovered {v : Guid} {b b' : Buffer} (ho : b.Ordered) (hu : b.unread.length < 8) {pos : Nat}
    (haligned : (pos + b.readable.length) % 8 = 0) (h : Guid.read.run b = .ok v b') :
    ∃ skipped taken field, FieldType.guid.Recovered v pos b b' skipped taken field := by
  rw [readGuid_run] at h
  obtain ⟨hle, hlen, h⟩ := fits_of_ok h
  cases h
  exact ⟨_, _, .guid _, recovered_passed ho hu haligned hle rfl rfl rfl rfl
    (by rw [Guid.encode_decode hlen]; rfl)⟩

/-- Whatever was read is a field to be written. -/
theorem FieldType.read_recovered {f : FieldType} {v : f.Value} {b b' : Buffer} (ho : b.Ordered)
    (hu : b.unread.length < 8) {pos : Nat} (haligned : (pos + b.readable.length) % 8 = 0)
    (h : f.read.run b = .ok v b') : ∃ skipped taken field, f.Recovered v pos b b' skipped taken field := by
  cases f with
  | scalar t => exact scalar_recovered ho hu haligned h
  | bits count => exact bits_recovered ho hu pos h
  | bytes len hpos => exact bytes_recovered hpos ho hu haligned h
  | text len hpos => exact text_recovered hpos ho hu haligned h
  | terminated => exact terminated_recovered ho hu haligned h
  | guid => exact guid_recovered ho hu haligned h

/-! ## Fields in turn -/

theorem FieldType.length_canonical {f : FieldType} {v : f.Value} {taken : List Bool}
    (h : taken.length = f.width v) : (f.canonical taken).length = f.width v := by
  by_cases hf : f = .scalar .bool
  · subst hf
    rfl
  · rw [canonical_of_ne_bool hf, h]

theorem FieldType.Recovered.stop {f : FieldType} {v : f.Value} {pos : Nat} {b b' : Buffer}
    {skipped taken : List Bool} {field : Field} (h : f.Recovered v pos b b' skipped taken field) :
    field.coding.stop pos = pos + (skipped ++ taken).length := by
  rw [← field.coding.add_length_after, h.bits, List.length_append, List.length_append,
    f.length_canonical h.length_taken, h.length_skipped, h.length_taken]

/-- What was read in turn is written in turn as these fields, whose bits are those
that were read as they are written back. -/
theorem readAll_recovered : ∀ (types : List FieldType) {readings : List Reading} {b done : Buffer} {pos : Nat},
    b.Ordered → b.unread.length < 8 → (pos + b.readable.length) % 8 = 0 →
    (readAll types).run b = .ok readings done →
    ∃ (taken : List Bool) (fields : List Field), Took b done taken ∧
      fields.map Field.write = readings.map Reading.write ∧
      stopFrom pos fields = (pos + taken.length + 7) / 8 ∧
      ∀ rest, encodeFrom pos fields = canonicalFrom pos readings (taken ++ rest)
  | [], _, _, _, _, ho, hu, _, h => by
    cases h
    exact ⟨[], [], .refl ho hu, rfl, rfl, fun _ => rfl⟩
  | f :: types, _, b, done, pos, ho, hu, haligned, h => by
    obtain ⟨value, b₁, hfirst, hrest⟩ := run_bind_ok.mp h
    obtain ⟨readings, b₂, hlater, heq⟩ := run_bind_ok.mp hrest
    cases heq
    obtain ⟨skipped, taken, field, recovered⟩ := f.read_recovered ho hu haligned hfirst
    have took := recovered.took
    -- Every field keeps it that what was read and what is left make whole bytes.
    have hnext : (pos + (skipped ++ taken).length + b₁.readable.length) % 8 = 0 := by
      rwa [took.readable, List.length_append, ← Nat.add_assoc] at haligned
    obtain ⟨later, fields, tookLater, hwrite, hstop, hencode⟩ :=
      readAll_recovered types took.ordered took.unread_lt hnext hlater
    refine ⟨skipped ++ taken ++ later, field :: fields, took.trans tookLater, ?_, ?_, fun rest => ?_⟩
    · rw [List.map_cons, List.map_cons, hwrite, recovered.write]
      rfl
    · have hlen : (skipped ++ taken ++ later).length = (skipped ++ taken).length + later.length :=
        List.length_append
      rw [stopFrom, recovered.stop, hstop, hlen, Nat.add_assoc pos]
    · have hwidth : (⟨f, value⟩ : Reading).width = taken.length := recovered.length_taken.symm
      have hall : skipped ++ taken ++ later ++ rest = skipped ++ (taken ++ (later ++ rest)) := by
        simp only [List.append_assoc]
      rw [encodeFrom, canonicalFrom, recovered.bits, recovered.stop, hencode rest, hwidth,
        ← recovered.length_skipped, hall, List.drop_left' rfl, List.take_left' rfl,
        ← List.length_append, ← List.append_assoc, List.drop_left' rfl]

/-! ## Nothing is stored behind what is written -/

theorem Field.isWrite_write (f : Field) : f.write.IsWrite := by cases f <;> trivial

/-- No stored bytes are left behind the write cursor, if there were none. -/
theorem keepsEnd_writes (fields : List Field) :
    Keeps (fun b => b.size ≤ b.wpos) (performAll (fields.map Field.write ++ [.flushBits])) :=
  stable_end.performAll (List.forall_mem_append.mpr
    ⟨List.forall_mem_map.mpr fun f _ => f.isWrite_write, List.forall_mem_singleton.mpr trivial⟩)

/-! ## Reading and writing back -/

/-- What was taken, and what is left of the byte begun, are the bits of the bytes
before the read cursor. -/
theorem ofBytes_take_rpos {p : List UInt8} {b done : Buffer} (received : Buffer.ofBytes p = .ok b)
    {taken : List Bool} (took : Took b done taken) :
    Bits.ofBytes (p.take done.rpos) = taken ++ done.unread ∧ done.rpos ≤ p.length := by
  obtain ⟨-, rfl⟩ := eq_of_ofBytesWithLimit received
  have hcontents : done.contents = p := by rw [took.store]
  have hwpos : done.wpos = p.length := by rw [took.store]
  have hle : done.rpos ≤ p.length := hwpos ▸ took.ordered.rpos_le
  have hbetween : done.between = p.drop done.rpos := by
    rw [between, bytesAt, hcontents, remaining, hwpos, List.take_of_length_le]
    rw [List.length_drop]
  have hstart : Bits.ofBytes p = taken ++ done.unread ++ Bits.ofBytes done.between := by
    have hall : readable ⟨p, 0, p.length, [], [], p.length, maxPayloadSize⟩ = Bits.ofBytes p := by
      simp [readable, between, bytesAt, remaining]
    rw [← hall, took.readable, readable, List.append_assoc]
  have hsplit := congrArg Bits.ofBytes (List.take_append_drop done.rpos p)
  rw [Bits.ofBytes_append, hstart, hbetween] at hsplit
  exact ⟨List.append_cancel_right hsplit, hle⟩

/-- Whatever the payload and the types: if fields of these types are read from it in
turn, what was read is written in turn to a buffer just made, under a ceiling that
admits as many bytes as were read, and there are as many then. They are the bytes
that were read, but for the bits that were skipped and the bytes of truth values. -/
theorem written_back {p : List UInt8} {b : Buffer} (received : Buffer.ofBytes p = .ok b)
    {types : List FieldType} {readings : List Reading} {done : Buffer}
    (read : (readAll types).run b = .ok readings done) {fresh : Buffer} (made : Made fresh)
    (empty : fresh.isEmpty) (room : done.rpos ≤ fresh.limit) :
    ∃ full, (performAll (readings.map Reading.write ++ [.flushBits])).run fresh =
        .ok (List.replicate (readings.length + 1) .done) full ∧
      full.contents.length = done.rpos ∧
      Bits.ofBytes full.contents = canonicalFrom 0 readings (Bits.ofBytes (p.take done.rpos)) := by
  have hstart := made.bitWritePos_eq_zero empty
  have hmade : Made b := .ofBytes p received
  have haligned : (0 + b.readable.length) % 8 = 0 := by
    obtain ⟨-, rfl⟩ := eq_of_ofBytesWithLimit received
    simp [readable]
  obtain ⟨taken, fields, took, hfields, hstop, hencode⟩ :=
    readAll_recovered types hmade.ordered hmade.wellFormed.unread_lt haligned read
  obtain ⟨hconsumed, hle⟩ := ofBytes_take_rpos received took
  -- The last byte that was begun is written in full, so that the sizes agree.
  have hsize : stopFrom 0 fields = done.rpos := by
    have hlen := congrArg List.length hconsumed
    have hunread := took.unread_lt
    rw [Bits.length_ofBytes, List.length_take_of_le hle, List.length_append] at hlen
    omega
  have hlength : fields.length = readings.length := by simpa using congrArg List.length hfields
  obtain ⟨full, hwrite, wrote⟩ := writes_wrote fields made.ordered.wpos_le made.wellFormed.pending_lt
    (by rwa [hstart, hsize])
  rw [hstart] at wrote
  have hwhole : (encodeFrom 0 fields).length = 8 * done.rpos := by
    rw [← hsize, ← add_length_encodeFrom, Nat.zero_add]
  obtain ⟨hwritten, hpending⟩ := wrote.written_eq made empty (by omega)
  have hend : full.size ≤ full.wpos := by
    obtain ⟨capacity, limit, rfl⟩ := made.eq_of_isEmpty empty
    have hkeeps := keepsEnd_writes fields ⟨[], 0, 0, [], [], capacity, limit⟩ (Nat.le_refl 0)
    rwa [after, hwrite] at hkeeps
  have hcontents : Bits.ofBytes full.contents = encodeFrom 0 fields := by
    rw [← hwritten, written, hpending, List.append_nil, List.take_of_length_le hend]
  refine ⟨full, ?_, ?_, ?_⟩
  · rwa [hfields, hlength] at hwrite
  · have hlen := congrArg List.length hcontents
    rw [Bits.length_ofBytes, hwhole] at hlen
    omega
  · rw [hcontents, hconsumed, hencode]

/-- A bit field in front of a truth value, a bit in front of a byte run. -/
def raggedTypes : List FieldType := [.bits 3, .scalar .bool, .bits 1, .bytes 2 (by decide)]

/-- Bits are set wherever they are skipped, and the truth value is a two. -/
def raggedPayload : List UInt8 := [0xFF, 2, 0xFF, 5, 6, 7]

/-- Of its six bytes five are read, and come back under a ceiling of five: with the
skipped bits clear, and the byte of the truth value one. -/
theorem written_back_ragged :
    ∃ b readings done full, Buffer.ofBytes raggedPayload = .ok b ∧
      (readAll raggedTypes).run b = .ok readings done ∧ done.rpos = 5 ∧
      (performAll (readings.map Reading.write ++ [.flushBits])).run (.withLimit 0 5) =
        .ok (List.replicate 5 .done) full ∧
      full.contents = [0xE0, 1, 0x80, 5, 6] := by
  have hread : (readAll raggedTypes).run ⟨raggedPayload, 0, 6, [], [], 6, maxPayloadSize⟩ =
      .ok [⟨.bits 3, 7⟩, ⟨.scalar .bool, true⟩, ⟨.bits 1, 1⟩, ⟨.bytes 2 (by decide), [5, 6]⟩]
        ⟨raggedPayload, 5, 6, [], [], 6, maxPayloadSize⟩ := by rfl
  obtain ⟨full, hwrite, -, hbits⟩ :=
    written_back (p := raggedPayload) rfl hread (.fresh (.withLimit 0 5)) rfl (by decide)
  refine ⟨_, _, _, full, rfl, hread, rfl, hwrite, Bits.ofBytes_injective (hbits.trans ?_)⟩
  decide

end PacketWire
