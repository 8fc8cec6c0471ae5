/-
How writing and encoding a message ends, under whatever ceiling.

A writer stores its fields as runs of bytes, one after another: it ends with
all of them stored, or is refused at the first that would pass the ceiling
(`Packs`). `ServerMessage.fields` gives the runs of a message, which are its
bytes cut into fields, and that messages are written just so is
`ServerMessage.write_packs`. What encoding makes of a message is then one
equation, the packet and the refusal with its size (`encodeWithLimit_eq`).
-/
import PacketWire.Proofs.Canonical

namespace PacketWire

open Buffer

namespace Buffer

/-! ## Storing bytes behind what is stored -/

/-- No bits are pending, and the write cursor stands at the end of the stored bytes. -/
def AtEnd (b : Buffer) : Prop := b.pending = [] ∧ b.wpos = b.size

/-- From `b` to `b'` this run was stored at the end, and nothing was read. -/
structure Stored (b b' : Buffer) (run : List UInt8) : Prop where
  contents : b'.contents = b.contents ++ run
  atEnd : b'.AtEnd
  rpos : b'.rpos = b.rpos
  unread : b'.unread = b.unread
  limit : b'.limit = b.limit

theorem Stored.trans {b b₁ b₂ : Buffer} {run₁ run₂ : List UInt8} (h₁ : Stored b b₁ run₁)
    (h₂ : Stored b₁ b₂ run₂) : Stored b b₂ (run₁ ++ run₂) where
  contents := by rw [h₂.contents, h₁.contents, List.append_assoc]
  atEnd := h₂.atEnd
  rpos := h₂.rpos.trans h₁.rpos
  unread := h₂.unread.trans h₁.unread
  limit := h₂.limit.trans h₁.limit

theorem Stored.size {b b' : Buffer} {run : List UInt8} (h : Stored b b' run) :
    b'.size = b.size + run.length := by
  rw [Buffer.size, h.contents, List.length_append]
  rfl

theorem stored_place {b : Buffer} (h : b.AtEnd) (run : List UInt8) : Stored b (b.place run) run := by
  obtain ⟨hpending, hwpos⟩ := h
  have hsize : (b.place run).size = b.wpos + run.length := by
    rw [size_place]
    omega
  have htake := take_contents_place hwpos.le run
  have hall : b.contents.take b.wpos = b.contents := List.take_of_length_le hwpos.ge
  rw [hall, List.take_of_length_le (Nat.le_of_eq hsize)] at htake
  exact ⟨htake, ⟨hpending, hsize.symm⟩, rfl, rfl, rfl⟩

theorem stored_foldl : ∀ (runs : List (List UInt8)) {b : Buffer}, b.AtEnd →
    Stored b (runs.foldl place b) runs.flatten
  | [], _, h => ⟨(List.append_nil _).symm, h, rfl, rfl, rfl⟩
  | run :: runs, _, h =>
    have first := stored_place h run
    first.trans (stored_foldl runs first.atEnd)

/-! ## Writers of byte runs -/

/-- How storing these runs in turn ends. -/
def Packs : List (List UInt8) → Buffer → EStateM.Result Failure Buffer Unit → Prop
  | [], b, r => r = .ok () b
  | run :: runs, b, r =>
    if b.limit < b.size + run.length then
      ∃ b', r = .error (.refused (.capacityExceeded (b.size + run.length) b.limit)) b'
    else Packs runs (b.place run) r

/-- A writer of these runs. -/
def Writes (m : BufferM Unit) (runs : List (List UInt8)) : Prop :=
  ∀ b : Buffer, b.AtEnd → Packs runs b (m.run b)

/-- A writer that is done goes on with the next one, behind its runs. -/
theorem Packs.seq {m next : BufferM Unit} {later : List (List UInt8)} (hnext : Writes next later)
    {start : Buffer} : ∀ {runs : List (List UInt8)} {b : Buffer}, b.AtEnd → Packs runs b (m.run start) →
      Packs (runs ++ later) b ((m >>= fun _ => next).run start)
  | [], b, hend, h => by
    rw [run_bind_of_ok h]
    exact hnext b hend
  | run :: runs, b, hend, h => by
    simp only [Packs, List.cons_append] at h ⊢
    split
    next hfull =>
      rw [if_pos hfull] at h
      obtain ⟨b', hrun⟩ := h
      exact ⟨b', run_bind_of_error hrun⟩
    next hroom =>
      -- `start` stays, as the writer of all the runs ran from there.
      rw [if_neg hroom] at h
      exact Packs.seq hnext (stored_place hend run).atEnd h

theorem Writes.seq {m next : BufferM Unit} {runs later : List (List UInt8)} (hm : Writes m runs)
    (hnext : Writes next later) : Writes (m >>= fun _ => next) (runs ++ later) :=
  fun b hend => Packs.seq hnext hend (hm b hend)

theorem writes_append {run : List UInt8} (hne : run ≠ []) : Writes (append run) [run] := by
  rintro b ⟨hpending, hwpos⟩
  rw [Packs, append_run, if_neg hne, flushSize_of_nil hpending, flushed_of_nil hpending, Nat.zero_add, hwpos]
  split
  · exact ⟨b, rfl⟩
  · rfl

theorem writes_scalar (t : ScalarType) (value : t.Value) : Writes (Buffer.write t value) [t.encode value] := by
  rw [write_eq]
  exact writes_append (t.encode_ne_nil _)

theorem writes_guid (guid : Guid) : Writes guid.write [guid.encode] :=
  writes_append (Guid.encode_ne_nil _)

theorem writes_mask (mask : NodeMask) : Writes mask.write [mask.encode] :=
  writes_append (List.ne_nil_of_length_pos (by rw [NodeMask.length_encode]; decide))

theorem writes_flag (bit : Bool) : Writes (writeBit bit >>= fun _ => flushBits) [[mapFlag bit]] := by
  rintro b ⟨hpending, hwpos⟩
  have hbyte : Bits.toByte [bit] = mapFlag bit := by cases bit <;> decide
  have hbit : (writeBit bit).run b = .ok () { b with pending := [bit] } := by
    rw [writeBit_run_of_lt (by simp [hpending]), if_neg (by simp [hpending]), pushBit, if_pos (by simp [hpending]), hpending]
    rfl
  have hflushed : ({ b with pending := [bit] } : Buffer).flushed = b.place [mapFlag bit] := by
    rw [flushed, if_neg (by simp), placeBits, hbyte, ← hpending]
  rw [Packs, run_bind_of_ok hbit, flushBits_run, hflushed, hwpos]
  by_cases hfull : b.limit < b.size + 1
  · simp [hfull]
  · simp [hfull, Packs]

/-- A bit that is flushed at once is a byte in front of what follows. -/
theorem Writes.flag {m : BufferM Unit} {runs : List (List UInt8)} (hm : Writes m runs) (bit : Bool) :
    Writes (writeBit bit >>= fun _ => flushBits >>= fun _ => m) ([mapFlag bit] :: runs) := by
  have h := (writes_flag bit).seq hm
  rwa [bind_assoc] at h

/-- The sizes behind each of these runs in turn, from `start` on. -/
def sizesFrom (start : Nat) : List (List UInt8) → List Nat
  | [] => []
  | run :: runs => (start + run.length) :: sizesFrom (start + run.length) runs

/-- Runs fit under a ceiling exactly if none of the sizes passes it. -/
theorem find?_sizesFrom_eq_none {limit : Nat} : ∀ {runs : List (List UInt8)} {start : Nat}, start ≤ limit →
    ((sizesFrom start runs).find? (limit < ·) = none ↔ start + runs.flatten.length ≤ limit)
  | [], start, h => by simpa [sizesFrom] using h
  | run :: runs, start, _ => by
    rw [sizesFrom, List.flatten_cons, List.length_append]
    by_cases hfull : limit < start + run.length
    · simp only [List.find?_cons, hfull, decide_true, reduceCtorEq, false_iff]
      omega
    · have hrest : (sizesFrom (start + run.length) runs).find? (limit < ·) = none ↔
          start + run.length + runs.flatten.length ≤ limit :=
        find?_sizesFrom_eq_none (Nat.not_lt.mp hfull)
      simp only [List.find?_cons, hfull, decide_false]
      rw [hrest, Nat.add_assoc]

theorem le_of_mem_sizesFrom {size : Nat} : ∀ {runs : List (List UInt8)} {start : Nat},
    size ∈ sizesFrom start runs → size ≤ start + runs.flatten.length
  | [], _, h => nomatch h
  | run :: runs, start, h => by
    rw [List.flatten_cons, List.length_append]
    rcases List.mem_cons.mp h with rfl | h
    · omega
    · have hrest := le_of_mem_sizesFrom h
      omega

/-- The runs are all stored, or the first that passes the ceiling is refused,
with the size that there would be behind it. -/
theorem Packs.eq {r : EStateM.Result Failure Buffer Unit} :
    ∀ {runs : List (List UInt8)} {b : Buffer}, b.AtEnd → Packs runs b r →
      match (sizesFrom b.size runs).find? (b.limit < ·) with
      | none => r = .ok () (runs.foldl place b)
      | some size => ∃ b', r = .error (.refused (.capacityExceeded size b.limit)) b'
  | [], _, _, h => h
  | run :: runs, b, hend, h => by
    have first := stored_place hend run
    rw [Packs] at h
    rw [sizesFrom, List.find?_cons]
    split at h
    next hfull => simpa only [hfull, decide_true] using h
    next hroom =>
      have hrest := h.eq first.atEnd
      rw [first.size, first.limit] at hrest
      simpa only [hroom, decide_false, List.foldl_cons] using hrest

end Buffer

/-! ## Messages -/

namespace ServerMessage

/-- The bytes of a message, field by field. -/
def fields : ServerMessage → List (List UInt8)
  | taxiNodeStatus status unit => [ScalarType.u8.encode status, unit.encode]
  | showTaxiNodes window canLand canUse =>
    [mapFlag window.isSome] ::
      (window.elim [] (fun w => [w.unit.encode, ScalarType.i32.encode w.currentNode]) ++
        [canLand.encode, canUse.encode])
  | newTaxiPath path => [ScalarType.i32.encode path]
  | activateTaxiReply reply => [ScalarType.u8.encode reply]

theorem flatten_fields (m : ServerMessage) : m.fields.flatten = m.bytes := by
  cases m with
  | showTaxiNodes window canLand canUse => cases window <;> simp [fields, bytes, MapWindow.bytes]
  | _ => simp [fields, bytes]

/-- Writing a message stores its fields in turn. -/
theorem write_packs : ∀ m : ServerMessage, Writes m.write m.fields
  | .taxiNodeStatus status unit => (writes_scalar .u8 status).seq (writes_guid unit)
  | .showTaxiNodes window canLand canUse => by
    have hmasks : Writes (do canLand.write; canUse.write) [canLand.encode, canUse.encode] :=
      (writes_mask canLand).seq (writes_mask canUse)
    cases window with
    | none => exact hmasks.flag false
    | some window =>
      have hwindow := (writes_guid window.unit).seq ((writes_scalar .i32 window.currentNode).seq hmasks)
      exact hwindow.flag true
  | .newTaxiPath path => writes_scalar .i32 path
  | .activateTaxiReply reply => writes_scalar .u8 reply

/-- The sizes that a message passes through as its fields are written. -/
def sizes (m : ServerMessage) : List Nat := sizesFrom 0 m.fields

/-- The first of a message's sizes that passes the ceiling, if one does. -/
def excess? (m : ServerMessage) (limit : Nat) : Option Nat := m.sizes.find? (limit < ·)

theorem excess?_eq_none_iff {m : ServerMessage} {limit : Nat} :
    m.excess? limit = none ↔ m.bytes.length ≤ limit := by
  rw [excess?, sizes, find?_sizesFrom_eq_none (Nat.zero_le limit), flatten_fields, Nat.zero_add]

theorem lt_of_excess? {m : ServerMessage} {limit size : Nat} (h : m.excess? limit = some size) :
    limit < size := by
  simpa using List.find?_some h

theorem le_of_excess? {m : ServerMessage} {limit size : Nat} (h : m.excess? limit = some size) :
    size ≤ m.bytes.length := by
  have hle := le_of_mem_sizesFrom (List.mem_of_find?_eq_some h)
  rwa [flatten_fields, Nat.zero_add] at hle

/-- Writing a message stores its bytes, under a ceiling that admits them. -/
theorem write_stored (m : ServerMessage) {b : Buffer} (hend : b.AtEnd)
    (hroom : b.size + m.bytes.length ≤ b.limit) :
    ∃ b', m.write.run b = .ok () b' ∧ Stored b b' m.bytes := by
  have hrun := (m.write_packs b hend).eq hend
  have hnone : (sizesFrom b.size m.fields).find? (b.limit < ·) = none := by
    rwa [find?_sizesFrom_eq_none (by omega), flatten_fields]
  rw [hnone] at hrun
  have hstored := stored_foldl m.fields hend
  rw [flatten_fields] at hstored
  exact ⟨_, hrun, hstored⟩

/-! ## Packets -/

/-- The empty buffer that a message is written to. -/
def blank (m : ServerMessage) (limit : Nat) : Buffer := .withLimit (sizeHint m.opcode) limit

theorem atEnd_blank (m : ServerMessage) (limit : Nat) : (m.blank limit).AtEnd := ⟨rfl, rfl⟩

/-- The packet that a message makes under a ceiling that it fits. -/
def packet (m : ServerMessage) (limit : Nat) : Packet where
  opcode := .server m.opcode
  buffer := m.fields.foldl place (m.blank limit)

theorem stored_packet (m : ServerMessage) (limit : Nat) :
    Stored (m.blank limit) (m.packet limit).buffer m.bytes := by
  rw [← flatten_fields]
  exact stored_foldl m.fields (m.atEnd_blank limit)

@[simp] theorem contents_packet (m : ServerMessage) (limit : Nat) :
    (m.packet limit).buffer.contents = m.bytes := (m.stored_packet limit).contents

@[simp] theorem size_packet (m : ServerMessage) (limit : Nat) :
    (m.packet limit).buffer.size = m.bytes.length := by rw [size, contents_packet]

/-- Encoding writes a message to an empty buffer and flushes what is pending. -/
theorem encodeWithLimit_run (m : ServerMessage) (limit : Nat) :
    m.encodeWithLimit limit = match (m.write >>= fun _ => flushBits).run (m.blank limit) with
      | .ok () buffer =>
        (.ok ⟨.server m.opcode, buffer⟩, [.packetEncoded (.server m.opcode) buffer.size])
      | .error failure _ => (.error failure, []) := rfl

/-- What encoding makes of a message: its packet, or the first of its sizes that
passes the ceiling. -/
theorem encodeWithLimit_eq (m : ServerMessage) (limit : Nat) :
    m.encodeWithLimit limit = match m.excess? limit with
      | none => (.ok (m.packet limit), [.packetEncoded (.server m.opcode) m.bytes.length])
      | some size => (.error (.refused (.capacityExceeded size limit)), []) := by
  have hwrite := (m.write_packs _ (m.atEnd_blank limit)).eq (m.atEnd_blank limit)
  have hexcess : (sizesFrom (m.blank limit).size m.fields).find? ((m.blank limit).limit < ·) =
      m.excess? limit := rfl
  rw [hexcess] at hwrite
  cases h : m.excess? limit with
  | none =>
    rw [h] at hwrite
    -- No bits are pending behind a message, so that the flush at its end does nothing.
    have hfull : m.write.run (m.blank limit) = .ok () (m.packet limit).buffer := hwrite
    have hnone : (m.packet limit).buffer.pending = [] := (m.stored_packet limit).atEnd.1
    rw [m.encodeWithLimit_run, run_bind_of_ok hfull, flushBits_run, if_neg fun h => h.1 hnone, flushed_of_nil hnone]
    simp only [size_packet]
    rfl
  | some size =>
    rw [h] at hwrite
    obtain ⟨b', hrefused⟩ := hwrite
    rw [m.encodeWithLimit_run, run_bind_of_error hrefused]
    rfl

/-- A message that fits is encoded in its bytes. -/
theorem encodeWithLimit_of_le {m : ServerMessage} {limit : Nat} (h : m.bytes.length ≤ limit) :
    ∃ packet, (m.encodeWithLimit limit).1 = .ok packet ∧ packet.opcode = .server m.opcode ∧
      packet.buffer.contents = m.bytes := by
  refine ⟨m.packet limit, ?_, rfl, m.contents_packet limit⟩
  rw [m.encodeWithLimit_eq, excess?_eq_none_iff.mpr h]

/-- One that does not is refused for the ceiling. -/
theorem encodeWithLimit_of_lt {m : ServerMessage} {limit : Nat} (h : limit < m.bytes.length) :
    ∃ size, limit < size ∧ size ≤ m.bytes.length ∧
      (m.encodeWithLimit limit).1 = .error (.refused (.capacityExceeded size limit)) := by
  have hsome : m.excess? limit ≠ none := by
    rw [Ne, excess?_eq_none_iff]
    omega
  obtain ⟨size, hsize⟩ := Option.ne_none_iff_exists'.mp hsome
  refine ⟨size, lt_of_excess? hsize, le_of_excess? hsize, ?_⟩
  rw [m.encodeWithLimit_eq, hsize]

/-- No message is longer than a map with a window. -/
theorem length_bytes_le (m : ServerMessage) : m.bytes.length ≤ 37 := by
  have hlen := m.length_bytes []
  rw [← hlen]
  cases m with
  | showTaxiNodes window canLand canUse =>
    simp only [Message.length, opcode]
    split <;> decide
  | _ => simp only [Message.length, opcode]; decide

/-- Encoding makes a packet of the message's opcode and bytes. -/
theorem encode_eq (m : ServerMessage) :
    ∃ out, m.encode.1 = .ok out ∧ out.opcode = .server m.opcode ∧ out.buffer.contents = m.bytes :=
  encodeWithLimit_of_le (Nat.le_trans m.length_bytes_le (by decide))

end ServerMessage

end PacketWire
