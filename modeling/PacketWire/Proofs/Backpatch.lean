/-
Filling a field in afterwards.

A field of another value comes to other bits in one stretch of those of a script,
whatever the fields around it (`scriptBits_patch`). Nothing else is left of a script
that is finished, so a patch of that stretch is all it takes to have written the
value in the first place (`backpatched`).
-/
import PacketWire.Proofs.Buffer.Patching
import PacketWire.Proofs.Script

namespace PacketWire

open Buffer

variable {b : Buffer}

/-! ## A field of a script -/

/-- A field stands in a script as what it comes to where those before it end. -/
theorem scriptBits_split (before later : List Operation) (op : Operation) :
    scriptBits (before ++ op :: later) =
      Coding.inTurn 0 (codings before) ++ (op.coding.after (scriptStop before) ++
        Coding.inTurn (op.coding.stop (scriptStop before)) (codings (later ++ [.flushBits]))) := by
  rw [scriptBits, List.append_assoc, List.cons_append, codings_append, Coding.inTurn_append, codings_cons,
    Coding.inTurn, ← scriptStop]

theorem scriptStop_cons (before later : List Operation) (op : Operation) :
    scriptStop (before ++ op :: later) =
      Coding.stopAll (op.coding.stop (scriptStop before)) (codings later) := by
  rw [scriptStop, codings_append, codings_cons, Coding.stopAll_append, Coding.stopAll_cons, ← scriptStop]

/-- Two fields that come to as many bits, the same ones first: the script with
the one has the size of the script with the other, and its bits but for the others
of the field. -/
theorem scriptBits_patch {before : List Operation} (later : List Operation) {op op' : Operation}
    {lead old new : List Bool} (hold : op.coding.after (scriptStop before) = lead ++ old)
    (hnew : op'.coding.after (scriptStop before) = lead ++ new) (hlen : new.length = old.length) :
    scriptSize (before ++ op' :: later) = scriptSize (before ++ op :: later) ∧
      scriptStop before + lead.length + new.length ≤ 8 * scriptSize (before ++ op :: later) ∧
      overwrite (scriptBits (before ++ op :: later)) (scriptStop before + lead.length) new =
        scriptBits (before ++ op' :: later) := by
  have hend := op.coding.add_length_after (scriptStop before)
  have hend' := op'.coding.add_length_after (scriptStop before)
  rw [hold, List.length_append] at hend
  rw [hnew, List.length_append] at hend'
  -- Both end at one bit, so the writes that follow come to the same bits behind either.
  have hstop : op'.coding.stop (scriptStop before) = op.coding.stop (scriptStop before) := by omega
  have hfront : (Coding.inTurn 0 (codings before) ++ lead).length = scriptStop before + lead.length := by
    have := Coding.add_length_inTurn (codings before) 0
    rw [List.length_append, scriptStop]
    omega
  refine ⟨?_, ?_, ?_⟩
  · rw [scriptSize, scriptStop_cons, hstop, ← scriptStop_cons, ← scriptSize]
  · have := Coding.le_stopAll (codings later) (op.coding.stop (scriptStop before))
    rw [scriptSize, scriptStop_cons]
    omega
  · rw [scriptBits_split, scriptBits_split, hold, hnew, hstop, List.append_assoc, List.append_assoc,
      ← List.append_assoc _ lead, ← List.append_assoc _ lead, ← hfront, overwrite_part _ _ hlen]

/-- Where the field of a script begins. -/
theorem bitWritePos_afterAll (made : Made b) (empty : b.isEmpty) {before later : List Operation} {op : Operation}
    (writes : ∀ op ∈ before, op.IsWrite) (room : scriptSize (before ++ op :: later) ≤ b.limit) :
    (afterAll before b).bitWritePos = scriptStop before ∧ (afterAll before b).pending.length < 8 := by
  have hstart := made.bitWritePos_eq_zero empty
  have hfield := op.coding.add_length_after (scriptStop before)
  have hrest := Coding.le_stopAll (codings later) (op.coding.stop (scriptStop before))
  rw [scriptSize, scriptStop_cons] at room
  have wrote := afterAll_wrote made.ordered.wpos_le made.wellFormed.pending_lt writes
    (by rw [hstart, ← scriptStop]; omega)
  refine ⟨?_, wrote.pending_lt⟩
  rw [wrote.bitWritePos made.ordered.wpos_le, hstart, Coding.add_length_inTurn]
  rfl

/-! ## Patches of a field -/

theorem isWrite_around {before later : List Operation} (writes : ∀ op ∈ before ++ later, op.IsWrite)
    (field : Operation) (write : field.IsWrite) : ∀ op ∈ before ++ field :: later, op.IsWrite := by
  rw [List.forall_mem_append] at writes ⊢
  exact ⟨writes.1, List.forall_mem_cons.mpr ⟨write, writes.2⟩⟩

section Patch

variable {before later : List Operation} (made : Made b) (empty : b.isEmpty)
  (writes : ∀ op ∈ before ++ later, op.IsWrite)

include made empty writes

theorem put_finished (t : ScalarType) (old new : t.Value)
    (room : scriptSize (before ++ .write t old :: later) ≤ b.limit) :
    (put ((afterAll before b).wpos + (afterAll before b).flushSize) t new).run
        (finished (before ++ .write t old :: later) b) =
      .ok () (finished (before ++ .write t new :: later) b) := by
  have held := isWrite_around writes (.write t old) trivial
  have wanted := isWrite_around writes (.write t new) trivial
  have hafter : ∀ value, (Operation.write t value).coding.after (scriptStop before) =
      padding (scriptStop before) ++ Bits.ofBytes (t.encode value) := fun _ => rfl
  obtain ⟨hpos, hp⟩ := bitWritePos_afterAll made empty (List.forall_mem_append.mp writes).1 room
  have hstart : 8 * ((afterAll before b).wpos + (afterAll before b).flushSize) =
      scriptStop before + (padding (scriptStop before)).length := by
    rw [← ceil_bitWritePos hp, hpos, length_padding]
    omega
  obtain ⟨hsize, hfits, hpatch⟩ := scriptBits_patch later (hafter old) (hafter new)
    (by simp only [Bits.length_ofBytes, ScalarType.length_encode])
  rw [Bits.length_ofBytes, ← hstart, ← size_finished made empty held room] at hfits
  rw [put_eq, writeAt_run, if_neg (t.encode_ne_nil new), if_neg (by omega)]
  refine congrArg _ (finished_of_bits made empty held wanted room hsize ?_)
  rw [Bits.ofBytes_overwrite, ofBytes_contents_finished made empty held room, hstart, hpatch]

theorem putBits_finished {count : Nat} (hone : 1 ≤ count) (hmax : count ≤ 64) (old new : UInt64)
    (room : scriptSize (before ++ .writeBits old count :: later) ≤ b.limit) :
    (putBits (afterAll before b).bitWritePos new count).run
        (finished (before ++ .writeBits old count :: later) b) =
      .ok () (finished (before ++ .writeBits new count :: later) b) := by
  have held := isWrite_around writes (.writeBits old count) trivial
  have wanted := isWrite_around writes (.writeBits new count) trivial
  have hcoding : ∀ value, (Operation.writeBits value count).coding = .bits (Bits.ofNat count value.toNat) :=
    fun value => Operation.coding_eq (if_neg (by omega))
  have hafter : ∀ value, (Operation.writeBits value count).coding.after (scriptStop before) =
      [] ++ Bits.ofNat count value.toNat := fun value => by rw [hcoding]; rfl
  obtain ⟨hpos, -⟩ := bitWritePos_afterAll made empty (List.forall_mem_append.mp writes).1 room
  obtain ⟨hsize, hfits, hpatch⟩ := scriptBits_patch later (hafter old) (hafter new)
    (by rw [Bits.length_ofNat, Bits.length_ofNat])
  rw [List.length_nil, Nat.add_zero, Bits.length_ofNat, ← size_finished made empty held room] at hfits
  rw [hpos, putBits_run_of_le hone hmax hfits]
  refine congrArg _ (finished_of_bits made empty held wanted room hsize ((ofBytes_contents_patched hfits).trans ?_))
  rw [ofBytes_contents_finished made empty held room]
  exact hpatch

end Patch

/-- Whatever the writes of a script on a buffer just made, under a ceiling that
admits what they come to. The script is done all through, if none of its writes is
refused whatever the buffer. A scalar or a bit field with a placeholder that is
patched after the last flush leaves all as the script with its value does, also if
some of the others were refused. -/
theorem backpatched (made : Made b) (empty : b.isEmpty) :
    (∀ script : List Operation, (∀ op ∈ script, op.coding?.isSome) → scriptSize script ≤ b.limit →
      (performAll (script ++ [.flushBits])).run b =
        .ok (List.replicate (script.length + 1) .done) (finished script b)) ∧
    ∀ before later : List Operation, (∀ op ∈ before ++ later, op.IsWrite) →
      (∀ (t : ScalarType) (old new : t.Value), scriptSize (before ++ .write t old :: later) ≤ b.limit →
        (put ((afterAll before b).wpos + (afterAll before b).flushSize) t new).run
            (finished (before ++ .write t old :: later) b) =
          .ok () (finished (before ++ .write t new :: later) b)) ∧
      ∀ (count : Nat) (old new : UInt64), 1 ≤ count → count ≤ 64 →
        scriptSize (before ++ .writeBits old count :: later) ≤ b.limit →
        (putBits (afterAll before b).bitWritePos new count).run
            (finished (before ++ .writeBits old count :: later) b) =
          .ok () (finished (before ++ .writeBits new count :: later) b) :=
  ⟨fun _ possible room => performAll_finished made empty possible room,
    fun _ _ writes => ⟨put_finished made empty writes,
      fun _ old new hone hmax => putBits_finished made empty writes hone hmax old new⟩⟩

/-- Bits, a text behind them, and two bits more. -/
def opening : List Operation := [.writeBits 5 3, .writeString "ab", .writeBits 1 2]

/-- Bits that no byte ends with, a run of no bytes, which is refused, and a text. -/
def closing : List Operation := [.writeBits 0x3FF 10, .append [], .writeTerminated "c", .writeBit true]

/-- Between them, a word begins at byte four, behind the zeros that fill byte
three; thirteen bits lie in these two, and fill neither. -/
theorem backpatched_between :
    (put 4 .u32 0xDEADBEEF).run (finished (opening ++ .write .u32 0 :: closing) (.withLimit 0 13)) =
        .ok () (finished (opening ++ .write .u32 0xDEADBEEF :: closing) (.withLimit 0 13)) ∧
      (putBits 26 0x1234 13).run (finished (opening ++ .writeBits 0 13 :: closing) (.withLimit 0 13)) =
        .ok () (finished (opening ++ .writeBits 0x1234 13 :: closing) (.withLimit 0 13)) := by
  have writes : ∀ op ∈ opening ++ closing, op.IsWrite := by simp [opening, closing, Operation.IsWrite]
  obtain ⟨hput, hputBits⟩ := (backpatched (.fresh (.withLimit 0 13)) rfl).2 opening closing writes
  have hpos : (afterAll opening (.withLimit 0 13)).wpos + (afterAll opening (.withLimit 0 13)).flushSize = 4 := by
    decide
  have hbit : (afterAll opening (.withLimit 0 13)).bitWritePos = 26 := by decide
  rw [hpos] at hput
  rw [hbit] at hputBits
  exact ⟨hput .u32 0 0xDEADBEEF (by decide), hputBits 13 0 0x1234 (by decide) (by decide) (by decide)⟩

end PacketWire
