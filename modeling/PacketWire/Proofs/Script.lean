/-
A script of writes.

`Coding` is what a write comes to: bits that follow the ones before, or a run that
begins at a byte, after zeros. They are the zeros that a flush writes, at every
offset (`run_wrote`). A script comes to the codings of its writes in turn: these
are the bits that it adds (`afterAll_wrote`), and it is done all through unless one
of the writes is refused whatever the buffer (`performAll_run`). On a buffer just
made, once the last bits are flushed, nothing else is left of it: the bytes that its
bits spell, and the room for as many (`finished_eq`).
-/
import PacketWire.Proofs.Buffer.Storing
import PacketWire.Proofs.Buffer.Stream

namespace PacketWire

open Buffer Text

/-! ## What a write comes to -/

inductive Coding
  /-- Bits, right after those before. -/
  | bits (field : List Bool)
  /-- A byte run, after the zeros that fill the byte begun. -/
  | bytes (run : List UInt8)

namespace Coding

/-- The bits that are added after `pos` of them. -/
def after (pos : Nat) : Coding → List Bool
  | bits field => field
  | bytes run => padding pos ++ Bits.ofBytes run

def stop (pos : Nat) : Coding → Nat
  | bits field => pos + field.length
  | bytes run => 8 * ((pos + 7) / 8 + run.length)

theorem add_length_after (pos : Nat) : ∀ c : Coding, pos + (c.after pos).length = c.stop pos
  | bits field => rfl
  | bytes run => by
    simp only [after, stop, List.length_append, length_padding, Bits.length_ofBytes]
    omega

/-- The bits that codings in turn add after `pos` bits. -/
def inTurn (pos : Nat) : List Coding → List Bool
  | [] => []
  | c :: cs => c.after pos ++ inTurn (c.stop pos) cs

/-- Where codings in turn end. -/
def stopAll (pos : Nat) (cs : List Coding) : Nat := cs.foldl stop pos

theorem stopAll_cons (pos : Nat) (c : Coding) (cs : List Coding) :
    stopAll pos (c :: cs) = stopAll (c.stop pos) cs := rfl

theorem stopAll_append (pos : Nat) (xs ys : List Coding) : stopAll pos (xs ++ ys) = stopAll (stopAll pos xs) ys :=
  List.foldl_append

theorem add_length_inTurn : ∀ (cs : List Coding) (pos : Nat), pos + (inTurn pos cs).length = stopAll pos cs
  | [], _ => rfl
  | c :: cs, pos => by
    rw [inTurn, List.length_append, ← Nat.add_assoc, add_length_after, add_length_inTurn cs, stopAll_cons]

theorem le_stopAll (cs : List Coding) (pos : Nat) : pos ≤ stopAll pos cs := by
  have := add_length_inTurn cs pos
  omega

theorem inTurn_append : ∀ (xs : List Coding) (pos : Nat) (ys : List Coding),
    inTurn pos (xs ++ ys) = inTurn pos xs ++ inTurn (stopAll pos xs) ys
  | [], _, _ => rfl
  | x :: xs, pos, ys => by
    rw [List.cons_append, inTurn, inTurn_append xs, inTurn, List.append_assoc, stopAll_cons]

end Coding

namespace Buffer.Operation

/-- What a write comes to, unless it is refused whatever the buffer. -/
def coding? : Operation → Option Coding
  | append src => if src = [] then none else some (.bytes src)
  | appendBuffer source =>
    if source.wpos = 0 then some (.bits [])
    else if source.size < source.wpos then none
    else some (.bytes (source.contents.take source.wpos))
  | write t value => some (.bytes (t.encode value))
  | writeString text => some (if text = "" then .bits [] else .bytes (Utf8.encode text))
  | writeTerminated text => some (.bytes (Utf8.encode text ++ [0]))
  | writeGuid guid => some (.bytes guid.encode)
  | writeBit bit => some (.bits [bit])
  | writeBits value count =>
    if count = 0 ∨ 64 < count then none else some (.bits (Bits.ofNat count value.toNat))
  | flushBits => some (.bytes [])
  | _ => none

/-- What it comes to, which is nothing if it is refused. -/
def coding (op : Operation) : Coding := op.coding?.getD (.bits [])

theorem coding_eq {op : Operation} {c : Coding} (h : op.coding? = some c) : op.coding = c := by
  rw [coding, h, Option.getD_some]

theorem isWrite_of_coding? {op : Operation} (h : op.coding?.isSome) : op.IsWrite := by
  cases op <;> first | exact trivial | cases h

end Buffer.Operation

/-- What the writes of a script come to. -/
def codings (script : List Operation) : List Coding := script.map Operation.coding

theorem codings_cons (op : Operation) (ops : List Operation) : codings (op :: ops) = op.coding :: codings ops := rfl

theorem codings_append (xs ys : List Operation) : codings (xs ++ ys) = codings xs ++ codings ys := List.map_append

/-! ## One write -/

theorem append_wrote {b : Buffer} (h : b.wpos ≤ b.size) (hp : b.pending.length < 8)
    {run : List UInt8} (hne : run ≠ []) (room : (Coding.bytes run).stop b.bitWritePos / 8 ≤ b.limit) :
    ∃ b', (append run).run b = .ok () b' ∧ Wrote b b' ((Coding.bytes run).after b.bitWritePos) := by
  have hroom : ¬ b.limit < b.wpos + (b.flushSize + run.length) := by
    simp only [Coding.stop, ceil_bitWritePos hp] at room
    omega
  refine ⟨b.flushed.place run, ?_, wrote_flushed_place h hp run⟩
  rw [append_run, if_neg hne, if_neg hroom]

theorem writeTerminated_wrote {b : Buffer} (h : b.wpos ≤ b.size) (hp : b.pending.length < 8)
    (s : String) (room : (Coding.bytes (Utf8.encode s ++ [0])).stop b.bitWritePos / 8 ≤ b.limit) :
    ∃ b', (writeTerminated s).run b = .ok () b' ∧
      Wrote b b' ((Coding.bytes (Utf8.encode s ++ [0])).after b.bitWritePos) := by
  have hroom : ¬ b.limit < b.wpos + (b.flushSize + (Utf8.encode s).length + 1) := by
    simp only [Coding.stop, ceil_bitWritePos hp, List.length_append, List.length_singleton] at room
    omega
  rw [writeTerminated_run, if_neg hroom]
  split
  next hs =>
    rw [hs, Utf8.encode_eq_nil_iff.mpr rfl]
    exact ⟨_, rfl, wrote_flushed_place h hp [0]⟩
  next hs =>
    have hfirst := wrote_flushed_place h hp (Utf8.encode s)
    have hzero := wrote_place hfirst.wpos_le (by simp) [0]
    refine ⟨_, rfl, ?_⟩
    rw [Coding.after, Bits.ofBytes_append, ← List.append_assoc]
    exact hfirst.trans hzero

theorem flushBits_wrote {b : Buffer} (h : b.wpos ≤ b.size) (hp : b.pending.length < 8)
    (room : (Coding.bytes []).stop b.bitWritePos / 8 ≤ b.limit) :
    ∃ b', flushBits.run b = .ok () b' ∧ Wrote b b' ((Coding.bytes []).after b.bitWritePos) := by
  have hroom : ¬ (b.pending ≠ [] ∧ b.limit < b.wpos + 1) := fun ⟨hne, hl⟩ => by
    rw [Coding.stop, ceil_bitWritePos hp, flushSize_of_ne hne, List.length_nil] at room
    omega
  refine ⟨b.flushed, by rw [flushBits_run, if_neg hroom], ?_⟩
  rw [Coding.after, Bits.ofBytes, List.flatMap_nil, List.append_nil]
  exact wrote_flushed h hp

namespace Buffer.Operation

/-- A write that there is room for, and that is not refused whatever the buffer,
adds what it comes to. -/
theorem run_wrote {b : Buffer} (h : b.wpos ≤ b.size) (hp : b.pending.length < 8) {op : Operation} {c : Coding}
    (hc : op.coding? = some c) (room : c.stop b.bitWritePos / 8 ≤ b.limit) :
    ∃ b', op.run.run b = .ok .done b' ∧ Wrote b b' (c.after b.bitWritePos) := by
  have answered : ∀ {m : BufferM Unit}, (∃ b', m.run b = .ok () b' ∧ Wrote b b' (c.after b.bitWritePos)) →
      ∃ b', ((fun _ => Answer.done) <$> m).run b = .ok .done b' ∧ Wrote b b' (c.after b.bitWritePos) :=
    fun ⟨b', hrun, wrote⟩ => ⟨b', run_map_ok.mpr ⟨(), hrun, rfl⟩, wrote⟩
  cases op <;> try cases hc
  case append src =>
    obtain ⟨hne, ⟨⟩⟩ := Option.ite_none_left_eq_some.mp hc
    exact answered (append_wrote h hp hne room)
  case appendBuffer source =>
    refine answered ?_
    rw [coding?] at hc
    rw [appendBuffer_run]
    split at hc
    next hzero =>
      cases hc
      rw [if_pos hzero]
      exact ⟨b, rfl, .refl h hp⟩
    next hzero =>
      obtain ⟨hle, ⟨⟩⟩ := Option.ite_none_left_eq_some.mp hc
      have hne : source.contents.take source.wpos ≠ [] := List.ne_nil_of_length_pos (by
        rw [List.length_take_of_le (Nat.not_lt.mp hle)]
        exact Nat.pos_of_ne_zero hzero)
      rw [if_neg hzero, if_neg hle]
      exact append_wrote h hp hne room
  case write t value =>
    refine answered ?_
    rw [write_eq]
    exact append_wrote h hp (t.encode_ne_nil value) room
  case writeString text =>
    refine answered ?_
    rw [writeString_run]
    split
    · exact ⟨b, rfl, .refl h hp⟩
    next hne => exact append_wrote h hp (mt Utf8.encode_eq_nil_iff.mp hne) (by rwa [if_neg hne] at room)
  case writeTerminated text => exact answered (writeTerminated_wrote h hp text room)
  case writeGuid guid => exact answered (append_wrote h hp guid.encode_ne_nil room)
  case writeBit bit =>
    simp only [Coding.stop, List.length_singleton, bitWritePos] at room
    refine answered ⟨b.pushBit bit, ?_, wrote_pushBit h hp bit⟩
    rw [writeBit_run_of_lt hp, if_neg (by omega)]
  case writeBits value count =>
    obtain ⟨hcount, ⟨⟩⟩ := Option.ite_none_left_eq_some.mp hc
    refine answered ⟨b.pushBits (Bits.ofNat count value.toNat), ?_, wrote_pushBits _ h hp⟩
    simp only [Coding.stop, Bits.length_ofNat, bitWritePos] at room
    rw [writeBits_run _ _ hp, if_neg hcount, if_neg (by omega)]
  case flushBits => exact answered (flushBits_wrote h hp room)

/-- A write that is refused whatever the buffer leaves it. -/
theorem after_of_coding?_eq_none {b : Buffer} (hp : b.pending.length < 8) {op : Operation} (write : op.IsWrite)
    (hc : op.coding? = none) : op.after b = b := by
  cases op <;> try first | exact write.elim | cases hc
  case append src =>
    have hnil : src = [] := by simpa [coding?] using hc
    rw [after, run, after_map, Buffer.after, append_run, if_pos hnil, left_error]
  case appendBuffer source =>
    have hshort : source.wpos ≠ 0 ∧ source.size < source.wpos := by
      rw [coding?] at hc
      split at hc
      · cases hc
      · split at hc
        · exact ⟨‹_›, ‹_›⟩
        · cases hc
    rw [after, run, after_map, Buffer.after, appendBuffer_run, if_neg hshort.1, if_pos hshort.2, left_error]
  case writeBits value count =>
    have hcount : count = 0 ∨ 64 < count := by
      by_contra hfits
      rw [coding?, if_neg hfits] at hc
      cases hc
    rw [after, run, after_map, Buffer.after, writeBits_run _ _ hp, if_pos hcount, left_error]

/-- Whatever it answers, a write that there is room for adds what it comes to. -/
theorem after_wrote {b : Buffer} (h : b.wpos ≤ b.size) (hp : b.pending.length < 8) {op : Operation}
    (write : op.IsWrite) (room : op.coding.stop b.bitWritePos / 8 ≤ b.limit) :
    Wrote b (op.after b) (op.coding.after b.bitWritePos) := by
  cases hc : op.coding? with
  | none =>
    rw [after_of_coding?_eq_none hp write hc, coding, hc]
    exact .refl h hp
  | some c =>
    rw [coding_eq hc] at room ⊢
    obtain ⟨b', hrun, wrote⟩ := run_wrote h hp hc room
    rw [after, Buffer.after, hrun]
    exact wrote

end Buffer.Operation

/-! ## A script -/

/-- Performs operations in turn, up to the first that gives no result. -/
def performAll : List Operation → BufferM (List Answer)
  | [] => return []
  | op :: ops => do
    let answer ← op.run
    let answers ← performAll ops
    return answer :: answers

theorem performAll_cons_run {op : Operation} {ops : List Operation} {answer : Answer}
    {answers : List Answer} {b b₁ b₂ : Buffer} (h : op.run.run b = .ok answer b₁) :
    (performAll (op :: ops)).run b = .ok (answer :: answers) b₂ ↔
      (performAll ops).run b₁ = .ok answers b₂ := by
  rw [performAll, run_bind_of_ok h, EStateM.run_bind]
  cases hrest : (performAll ops).run b₁ <;> simp

theorem performAll_cons_ok {op : Operation} {ops : List Operation} {answers : List Answer} {b b' : Buffer}
    (h : (performAll (op :: ops)).run b = .ok answers b') :
    ∃ answer rest b₁, answers = answer :: rest ∧ op.run.run b = .ok answer b₁ ∧
      (performAll ops).run b₁ = .ok rest b' := by
  obtain ⟨answer, b₁, hop, hrest⟩ := run_bind_ok.mp h
  obtain ⟨rest, b₂, hops, heq⟩ := run_bind_ok.mp hrest
  cases heq
  exact ⟨answer, rest, b₁, rfl, hop, hops⟩

/-- The buffer that operations in turn leave, whatever each of them answers. -/
def afterAll (ops : List Operation) (b : Buffer) : Buffer := ops.foldl (fun b op => op.after b) b

/-- What is not refused whatever the buffer is done, if there is room. -/
theorem performAll_run : ∀ {ops : List Operation} {b : Buffer}, b.wpos ≤ b.size → b.pending.length < 8 →
    (∀ op ∈ ops, op.coding?.isSome) → Coding.stopAll b.bitWritePos (codings ops) / 8 ≤ b.limit →
    (performAll ops).run b = .ok (List.replicate ops.length .done) (afterAll ops b)
  | [], _, _, _, _, _ => rfl
  | op :: ops, b, h, hp, possible, room => by
    obtain ⟨c, hc⟩ := Option.isSome_iff_exists.mp (possible op List.mem_cons_self)
    rw [codings_cons, Operation.coding_eq hc, Coding.stopAll_cons] at room
    have hrest := Coding.le_stopAll (codings ops) (c.stop b.bitWritePos)
    obtain ⟨b₁, hrun, wrote⟩ := Operation.run_wrote h hp hc (by omega)
    have hafter : op.after b = b₁ := by rw [Operation.after, Buffer.after, hrun]; rfl
    have hpos : b₁.bitWritePos = c.stop b.bitWritePos := by rw [wrote.bitWritePos h, c.add_length_after]
    refine (performAll_cons_run hrun).mpr ?_
    rw [afterAll, List.foldl_cons, hafter]
    exact performAll_run wrote.wpos_le wrote.pending_lt (fun op hop => possible op (List.mem_cons_of_mem _ hop))
      (by rw [hpos, wrote.limit]; exact room)

/-- Whatever they answer, writes in turn that there is room for add what they come to in turn. -/
theorem afterAll_wrote : ∀ {ops : List Operation} {b : Buffer}, b.wpos ≤ b.size → b.pending.length < 8 →
    (∀ op ∈ ops, op.IsWrite) → Coding.stopAll b.bitWritePos (codings ops) / 8 ≤ b.limit →
    Wrote b (afterAll ops b) (Coding.inTurn b.bitWritePos (codings ops))
  | [], _, h, hp, _, _ => .refl h hp
  | op :: ops, b, h, hp, writes, room => by
    rw [codings_cons, Coding.stopAll_cons] at room
    have hrest := Coding.le_stopAll (codings ops) (op.coding.stop b.bitWritePos)
    have wrote := Operation.after_wrote h hp (writes op List.mem_cons_self) (by omega)
    have hpos : (op.after b).bitWritePos = op.coding.stop b.bitWritePos := by
      rw [wrote.bitWritePos h, Coding.add_length_after]
    have wrote' := afterAll_wrote wrote.wpos_le wrote.pending_lt
      (fun op hop => writes op (List.mem_cons_of_mem _ hop)) (by rw [hpos, wrote.limit]; exact room)
    rw [hpos] at wrote'
    exact wrote.trans wrote'

theorem Buffer.Stable.afterAll {P : Buffer → Prop} (hP : Stable P) : ∀ {ops : List Operation} {b : Buffer},
    (∀ op ∈ ops, op.IsWrite) → P b → P (afterAll ops b)
  | [], _, _, h => h
  | op :: ops, b, writes, h => by
    have hrest : ∀ op ∈ ops, op.IsWrite := fun op' hop => writes op' (List.mem_cons_of_mem op hop)
    exact hP.afterAll (b := op.after b) hrest (hP.write (writes op List.mem_cons_self) b h)

theorem Buffer.Stable.performAll {P : Buffer → Prop} (hP : Stable P) : ∀ {ops : List Operation},
    (∀ op ∈ ops, op.IsWrite) → Keeps P (performAll ops)
  | [], _ => fun _ h => h
  | op :: ops, writes => by
    have hrest : ∀ op ∈ ops, op.IsWrite := fun op' hop => writes op' (List.mem_cons_of_mem op hop)
    exact (hP.write (writes op List.mem_cons_self)).bind fun _ => (hP.performAll hrest).bind fun _ _ h => h

/-! ## Finished scripts -/

/-- The buffer that a script leaves, its last bits flushed. -/
def finished (script : List Operation) (b : Buffer) : Buffer := afterAll (script ++ [.flushBits]) b

/-- The bits that a script comes to, from the first on. -/
def scriptStop (script : List Operation) : Nat := Coding.stopAll 0 (codings script)

/-- The bytes that it comes to when it is finished. -/
def scriptSize (script : List Operation) : Nat := (scriptStop script + 7) / 8

/-- Their bits. -/
def scriptBits (script : List Operation) : List Bool :=
  Coding.inTurn 0 (codings (script ++ [.flushBits]))

theorem stopAll_flushed (script : List Operation) :
    Coding.stopAll 0 (codings (script ++ [.flushBits])) = 8 * scriptSize script := by
  rw [codings_append, Coding.stopAll_append]
  rfl

theorem length_scriptBits (script : List Operation) : (scriptBits script).length = 8 * scriptSize script := by
  rw [← stopAll_flushed, ← Coding.add_length_inTurn, Nat.zero_add, scriptBits]

variable {b : Buffer}

/-- All that is left of a script is the bytes that its bits spell. -/
theorem finished_eq (made : Made b) (empty : b.isEmpty) {script : List Operation}
    (writes : ∀ op ∈ script, op.IsWrite) (room : scriptSize script ≤ b.limit) :
    ∃ contents, Bits.ofBytes contents = scriptBits script ∧
      finished script b =
        ⟨contents, 0, contents.length, [], [], roomFor b.capacity contents.length, b.limit⟩ := by
  have flushed : ∀ op ∈ script ++ [Operation.flushBits], op.IsWrite :=
    List.forall_mem_append.mpr ⟨writes, List.forall_mem_singleton.mpr trivial⟩
  have hlen := length_scriptBits script
  have wrote : Wrote b (finished script b) (scriptBits script) := by
    have hall := afterAll_wrote (b := b) made.ordered.wpos_le made.wellFormed.pending_lt flushed
    rw [made.bitWritePos_eq_zero empty, stopAll_flushed] at hall
    exact hall (by omega)
  obtain ⟨hwritten, hpending⟩ := wrote.written_eq made empty (by rw [hlen]; omega)
  obtain ⟨capacity, limit, rfl⟩ := made.eq_of_isEmpty empty
  -- Nothing is stored behind the write cursor, and the room went by the size alone.
  have hend := stable_end.afterAll flushed (b := ⟨[], 0, 0, [], [], capacity, limit⟩) (Nat.zero_le 0)
  have hroom := (stable_grown capacity).afterAll flushed (b := ⟨[], 0, 0, [], [], capacity, limit⟩)
    (if_pos ⟨Nat.zero_lt_succ 99, Nat.zero_le _⟩).symm
  rw [← finished] at hend hroom
  generalize finished script ⟨[], 0, 0, [], [], capacity, limit⟩ = full at *
  have hwpos : full.wpos = full.contents.length := Nat.le_antisymm wrote.wpos_le hend
  refine ⟨full.contents, ?_, ?_⟩
  · rw [← hwritten, written, hpending, hwpos, List.take_length, List.append_nil]
  · calc full = ⟨full.contents, full.rpos, full.wpos, full.pending, full.unread, full.capacity, full.limit⟩ := rfl
      _ = _ := by rw [wrote.rpos, hwpos, hpending, wrote.unread, hroom, wrote.limit]; rfl

/-- Bytes that spell the bits of a script make of another one of its size what it leaves. -/
theorem finished_of_bits (made : Made b) (empty : b.isEmpty) {script script' : List Operation}
    (writes : ∀ op ∈ script, op.IsWrite) (writes' : ∀ op ∈ script', op.IsWrite) (room : scriptSize script ≤ b.limit)
    (hsize : scriptSize script' = scriptSize script) {contents : List UInt8}
    (hbits : Bits.ofBytes contents = scriptBits script') :
    { finished script b with contents } = finished script' b := by
  obtain ⟨held, hheld, hfull⟩ := finished_eq made empty writes room
  obtain ⟨held', hheld', hfull'⟩ := finished_eq made empty writes' (hsize ▸ room)
  obtain rfl : contents = held' := Bits.ofBytes_injective (hbits.trans hheld'.symm)
  have hlen := congrArg List.length hheld
  have hlen' := congrArg List.length hheld'
  rw [Bits.length_ofBytes, length_scriptBits] at hlen hlen'
  have hsame : held.length = contents.length := by omega
  rw [hfull, hfull', hsame]

theorem ofBytes_contents_finished (made : Made b) (empty : b.isEmpty) {script : List Operation}
    (writes : ∀ op ∈ script, op.IsWrite) (room : scriptSize script ≤ b.limit) :
    Bits.ofBytes (finished script b).contents = scriptBits script := by
  obtain ⟨contents, hbits, hfull⟩ := finished_eq made empty writes room
  rw [hfull, hbits]

theorem size_finished (made : Made b) (empty : b.isEmpty) {script : List Operation}
    (writes : ∀ op ∈ script, op.IsWrite) (room : scriptSize script ≤ b.limit) :
    (finished script b).size = scriptSize script := by
  have hlen := congrArg List.length (ofBytes_contents_finished made empty writes room)
  rw [Bits.length_ofBytes, length_scriptBits] at hlen
  exact Nat.eq_of_mul_eq_mul_left (by decide) hlen

/-- A script of writes that are not refused whatever the buffer is done all through. -/
theorem performAll_finished (made : Made b) (empty : b.isEmpty) {script : List Operation}
    (possible : ∀ op ∈ script, op.coding?.isSome) (room : scriptSize script ≤ b.limit) :
    (performAll (script ++ [.flushBits])).run b =
      .ok (List.replicate (script.length + 1) .done) (finished script b) := by
  have flushed : ∀ op ∈ script ++ [Operation.flushBits], op.coding?.isSome :=
    List.forall_mem_append.mpr ⟨possible, List.forall_mem_singleton.mpr rfl⟩
  have hrun := performAll_run made.ordered.wpos_le made.wellFormed.pending_lt flushed
    (by rw [made.bitWritePos_eq_zero empty, stopAll_flushed]; omega)
  rwa [List.length_append, List.length_singleton] at hrun

end PacketWire
