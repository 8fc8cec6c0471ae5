/-
How much room a buffer has come to have.

A store grows in stages, when a run ends past the room or past a stage. What it has
grown to does not hang on how: unless room is asked for or the store is cleared, the
room is a function of the first room and the size (`roomFor`) after every operation of
a run, the refused and the aborted ones too. And whatever is done, it never shrinks
(`capacity_path_independent`).
-/
import PacketWire.Proofs.Buffer.Cursors
import PacketWire.Proofs.Buffer.Storing

namespace PacketWire.Buffer

/-- The operation asks for room, or empties the room that there is. -/
def Operation.Resets : Operation → Prop
  | reserve _ | clear => True
  | _ => False

/-- What every operation but these leaves true: a property of how much is stored, and of the room. -/
structure Lasting (P : Buffer → Prop) : Prop extends Stable P where
  patch : ∀ {b : Buffer} {contents : List UInt8}, contents.length = b.size → P b → P { b with contents }
  move : ∀ {b : Buffer} (rpos wpos : Nat) (unread : List Bool), P b → P { b with rpos, wpos, unread }

/-! ## Looking at what is stored -/

section
variable (P : Buffer → Prop)

theorem keeps_peek (len : Nat) : Keeps P (peek len) := by
  intro b h
  rw [after, peek_run]
  split_ifs <;> exact h

theorem keeps_decodeText (raw : List UInt8) : Keeps P (decodeText raw) := by
  intro b h
  rw [after, decodeText_run]
  split <;> exact h

theorem keeps_peekTerminated : Keeps P peekTerminated := by
  intro b h
  rw [after, peekTerminated_run]
  split_ifs <;> exact h

end

/-! ## Every operation -/

namespace Lasting

variable {P : Buffer → Prop}

theorem advance (hP : Lasting P) (len : Nat) : Keeps P (advance len) := fun b h => hP.move (b.rpos + len) b.wpos [] h

theorem readBytes (hP : Lasting P) (len : Nat) : Keeps P (readBytes len) := by
  intro b h
  have hpassed := hP.advance len b h
  rw [after, readBytes_run]
  split
  · exact h
  · split <;> exact hpassed

theorem skip (hP : Lasting P) (len : Nat) : Keeps P (skip len) := (hP.readBytes len).bind fun _ => .pure _

theorem readGuid (hP : Lasting P) : Keeps P Guid.read := (hP.readBytes _).bind fun _ => .pure _

theorem read (hP : Lasting P) (t : ScalarType) : Keeps P (read t) :=
  (keeps_peek P _).bind fun _ =>
    have hdone := fun a => (hP.advance t.size).bind fun _ => Keeps.pure a
    .ite ((keeps_refuse _).bind fun _ => hdone _) (hdone _)

theorem readString (hP : Lasting P) (len : Nat) : Keeps P (readString len) :=
  (keeps_peek P len).bind fun raw => (keeps_decodeText P raw).bind fun _ => (hP.advance len).bind fun _ => .pure _

theorem readTerminatedBytes (hP : Lasting P) : Keeps P readTerminatedBytes :=
  (keeps_peekTerminated P).bind fun _ => (hP.advance _).bind fun _ => .pure _

theorem readTerminated (hP : Lasting P) : Keeps P readTerminated :=
  (keeps_peekTerminated P).bind fun raw => (keeps_decodeText P raw).bind fun _ => (hP.advance _).bind fun _ => .pure _

theorem readBit (hP : Lasting P) : Keeps P readBit := by
  intro b h
  rw [after, readBit_run]
  split
  · exact hP.move b.rpos b.wpos _ h
  · split
    · exact h
    split
    · exact h
    · exact hP.move _ b.wpos _ h

theorem readBits (hP : Lasting P) (count : Nat) : Keeps P (readBits count) := by
  intro b h
  rcases after_readBits count b with hafter | hafter
  · rwa [hafter]
  · rw [hafter]
    exact (keeps_sequential P).takeBits hP.readBit count b h

theorem dropUnread (hP : Lasting P) : Keeps P (modify dropUnread) := fun b h => hP.move b.rpos b.wpos [] h

theorem setReadPos (hP : Lasting P) (pos : Nat) : Keeps P (setReadPos pos) := by
  intro b h
  rw [after, setReadPos_run]
  split
  · exact h
  · exact hP.move pos b.wpos [] h

theorem setWritePos (hP : Lasting P) (pos : Nat) : Keeps P (setWritePos pos) := by
  intro b h
  rw [after, setWritePos_run]
  split
  · exact h
  split
  · exact h
  · exact hP.move _ pos _ (hP.flushed h)

theorem writeAt (hP : Lasting P) (pos : Nat) (src : List UInt8) : Keeps P (writeAt pos src) := by
  intro b h
  rw [after, writeAt_run]
  split
  · exact h
  split
  · exact h
  next hfits =>
    unfold size at hfits
    refine hP.patch ?_ h
    rw [length_overwrite (by omega), size]
    omega

theorem put (hP : Lasting P) (pos : Nat) (t : ScalarType) (value : t.Value) : Keeps P (put pos t value) := by
  rw [put_eq]
  exact hP.writeAt pos _

theorem putBits (hP : Lasting P) (pos : Nat) (value : UInt64) (count : Nat) : Keeps P (putBits pos value count) := by
  intro b h
  rw [after, putBits_run]
  split
  · exact h
  split
  · exact h
  next hfits => exact hP.patch (Bits.length_patch (by rw [Bits.length_ofNat]; exact Nat.not_lt.mp hfits)) h

theorem operation (hP : Lasting P) {op : Operation} (h : ¬ op.Resets) : Keeps P op.run := by
  have hseq := keeps_sequential P
  cases op with
  | reserve _ | clear => exact absurd trivial h
  | append _ | appendBuffer _ | write _ _ | writeString _ | writeTerminated _ | writeGuid _ | writeBit _
  | writeBits _ _ | flushBits => exact hP.write trivial
  | writeMessage message => exact hseq.map (hseq.writeMessage hP.append hP.writeBit hP.flushBits message)
  | writeAt pos src => exact hseq.map (hP.writeAt pos src)
  | put pos t value => exact hseq.map (hP.put pos t value)
  | putBits pos value count => exact hseq.map (hP.putBits pos value count)
  | read t => exact hseq.map (hP.read t)
  | readBytes len => exact hseq.map (hP.readBytes len)
  | skip len => exact hseq.map (hP.skip len)
  | readString len => exact hseq.map (hP.readString len)
  | readTerminated => exact hseq.map hP.readTerminated
  | readTerminatedBytes => exact hseq.map hP.readTerminatedBytes
  | readGuid => exact hseq.map hP.readGuid
  | readMessage opcode => exact hseq.map (hseq.readMessage hP.readBytes hP.read hP.readBit hP.dropUnread opcode)
  | readBit => exact hseq.map hP.readBit
  | readBits count => exact hseq.map (hP.readBits count)
  | dropUnread => exact hseq.map hP.dropUnread
  | setReadPos pos => exact hseq.map (hP.setReadPos pos)
  | setWritePos pos => exact hseq.map (hP.setWritePos pos)

/-- It is true all along a run without these. -/
theorem along (hP : Lasting P) {ops : List Operation} {b : Buffer} (hops : ∀ op ∈ ops, ¬ op.Resets) (h : P b) :
    ∀ s ∈ trail ops b, P s :=
  along_trail (fun op hmem => hP.operation (hops op hmem)) h

end Lasting

/-! ## Room -/

/-- The room that the size asks for, after one write or many. -/
theorem lasting_grown (initial : Nat) : Lasting fun b => b.capacity = roomFor initial b.size where
  toStable := stable_grown initial
  patch hlen h := by
    rw [h, ← hlen]
    rfl
  move _ _ _ h := h

theorem lasting_least (room : Nat) : Lasting fun b => room ≤ b.capacity where
  place {b} src h := Nat.le_trans h (le_grow b.capacity b.size (b.wpos + src.length)).1
  keepBits _ h := h
  patch _ h := h
  move _ _ _ h := h

theorem Operation.capacity_le_after (op : Operation) (b : Buffer) : b.capacity ≤ (op.after b).capacity := by
  by_cases h : op.Resets
  · cases op with
    | reserve total => exact Nat.le_max_left ..
    | clear => exact Nat.le_refl _
    | _ => exact h.elim
  · exact (lasting_least b.capacity).operation h b (Nat.le_refl _)

theorem capacity_monotone : ∀ (ops : List Operation) (b : Buffer),
    (trail ops b).Pairwise fun s t => s.capacity ≤ t.capacity
  | [], _ => List.pairwise_singleton ..
  | op :: ops, b =>
    have hlater : ∀ s ∈ trail ops (op.after b), b.capacity ≤ s.capacity :=
      along_trail (fun op _ s hs => Nat.le_trans hs (op.capacity_le_after s)) (op.capacity_le_after b)
    .cons hlater (capacity_monotone ops (op.after b))

theorem Fresh.capacity_eq {b : Buffer} (h : Fresh b) : b.capacity = roomFor b.capacity b.size := by
  obtain ⟨capacity, limit, rfl⟩ := h.eq
  exact (if_pos ⟨Nat.zero_lt_succ 99, Nat.zero_le _⟩).symm

/-- A buffer that is made empty has, after every operation of a run that neither asks
for room nor clears, the room that its first room and the size make, however the
bytes came there. Along every run, on received bytes too, the room never shrinks and
always suffices; received bytes in a larger store are those that asked for it first. -/
theorem capacity_path_independent :
    (∀ b : Buffer, Fresh b → ∀ ops : List Operation, (∀ op ∈ ops, ¬ op.Resets) →
      ∀ s ∈ trail ops b, s.capacity = roomFor b.capacity s.size) ∧
    ∀ b : Buffer, Made b → ∀ ops : List Operation,
      ((trail ops b).Pairwise fun s t => s.capacity ≤ t.capacity) ∧ ∀ s ∈ trail ops b, s.size ≤ s.capacity := by
  refine ⟨fun b fresh ops hops => (lasting_grown b.capacity).along hops fresh.capacity_eq,
    fun b made ops => ⟨capacity_monotone ops b, fun s hs => ?_⟩⟩
  exact ((Reachable.made made).trail hs).wellFormed.size_le_capacity

/-- Bytes within the first room, a step back, and bytes up to the second stage. -/
def outgrowing : List Operation := [.append (List.replicate 15 7), .setWritePos 3, .append (List.replicate 110 8)]

theorem capacity_path_independent_outgrowing :
    Fresh (.withCapacity 20) ∧ (∀ op ∈ outgrowing, ¬ op.Resets) ∧
      (trail outgrowing (.withCapacity 20)).map size = [0, 15, 15, 113] ∧
      (trail outgrowing (.withCapacity 20)).map capacity = [20, 20, 20, 2500] ∧
      ((trail (.reserve 50 :: .clear :: outgrowing) .empty).Pairwise fun s t => s.capacity ≤ t.capacity) := by
  obtain ⟨grown, monotone⟩ := capacity_path_independent
  have hfresh : Fresh (.withCapacity 20) := .withCapacity 20
  have hops : ∀ op ∈ outgrowing, ¬ op.Resets := by simp [outgrowing, Operation.Resets]
  have hsizes : (trail outgrowing (.withCapacity 20)).map size = [0, 15, 15, 113] := by decide +kernel
  have hroom : (trail outgrowing (.withCapacity 20)).map capacity =
      ((trail outgrowing (.withCapacity 20)).map size).map (roomFor 20) := by
    rw [List.map_map]
    exact List.map_congr_left (grown _ hfresh outgrowing hops)
  exact ⟨hfresh, hops, hsizes, by rw [hroom, hsizes]; decide, (monotone .empty (.fresh .empty) _).1⟩

end PacketWire.Buffer
