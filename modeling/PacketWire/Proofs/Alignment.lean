/-
Where bits and bytes meet.

A byte-aligned write is meant to leave no bits pending, as a byte-aligned read
leaves no byte begun. Reads do (`alignedRead_ok`). Writes do if they have
something to write: an empty text and an empty source return before the flush
(`stored_ok`). So bits, an empty text and bits again are laid out without the
zeros that the reader drops, and come back as other values unless the first
bits fill their bytes or the zeros behind the last make up for it
(`readsAround_empty_iff`).
-/
import PacketWire.Proofs.Field

namespace PacketWire

open Buffer Text

namespace Buffer.Operation

/-- The bytes that a byte-aligned write is asked to store. -/
def stored? : Operation → Option (List UInt8)
  | append src => some src
  | appendBuffer source => some (source.contents.take source.wpos)
  | write t value => some (t.encode value)
  | writeString text => some (Utf8.encode text)
  | writeTerminated text => some (Utf8.encode text ++ [0])
  | writeGuid guid => some guid.encode
  | _ => none

def IsAlignedRead : Operation → Prop
  | read _ | readBytes _ | skip _ | readString _ | readTerminated | readTerminatedBytes | readGuid => True
  | _ => False

end Buffer.Operation

/-! ## One operation -/

theorem append_ok {src : List UInt8} {b b' : Buffer} (h : (append src).run b = .ok () b') :
    src ≠ [] ∧ b'.pending = [] := by
  rw [append_run] at h
  split at h
  · cases h
  next hne =>
  split at h
  · cases h
  · cases h
    exact ⟨hne, by simp⟩

/-- A byte-aligned write with bytes to store leaves no bits pending; one
without leaves the buffer as it was. -/
theorem stored_ok {op : Operation} {run : List UInt8} (hop : op.stored? = some run) {b b' : Buffer}
    {answer : Answer} (h : op.run.run b = .ok answer b') :
    (run ≠ [] ∧ b'.pending = []) ∨ (run = [] ∧ b' = b) := by
  cases op <;> cases hop <;> obtain ⟨⟨⟩, h, -⟩ := run_map_ok.mp h
  case append src => exact .inl (append_ok h)
  case write t value =>
    rw [write_eq] at h
    exact .inl (append_ok h)
  case writeGuid guid => exact .inl (append_ok h)
  case appendBuffer source =>
    rw [appendBuffer_run] at h
    split at h
    next hzero =>
      cases h
      exact .inr ⟨by rw [hzero, List.take_zero], rfl⟩
    · split at h
      · cases h
      · exact .inl (append_ok h)
  case writeString text =>
    rw [writeString_run] at h
    split at h
    next htext =>
      cases h
      exact .inr ⟨Utf8.encode_eq_nil_iff.mpr htext, rfl⟩
    · exact .inl (append_ok h)
  case writeTerminated text =>
    refine .inl ⟨by simp, ?_⟩
    rw [writeTerminated_run] at h
    split at h
    · cases h
    · split at h <;> cases h <;> simp

theorem alignedRead_ok {op : Operation} (hop : op.IsAlignedRead) {b b' : Buffer} {answer : Answer}
    (h : op.run.run b = .ok answer b') : b'.unread = [] := by
  cases op <;> cases hop <;> obtain ⟨a, h, -⟩ := run_map_ok.mp h
  case read t =>
    rw [read_run] at h
    obtain ⟨-, -, h⟩ := fits_of_ok h
    split at h <;> cases h
    rfl
  case readBytes len =>
    rw [readBytes_run] at h
    obtain ⟨-, -, ⟨⟩⟩ := fits_of_ok h
    rfl
  case skip len =>
    rw [skip_run] at h
    obtain ⟨-, -, ⟨⟩⟩ := fits_of_ok h
    rfl
  case readString len =>
    rw [readString_run] at h
    obtain ⟨-, -, h⟩ := fits_of_ok h
    split at h <;> cases h
    rfl
  case readTerminated =>
    rw [readTerminated_run] at h
    split at h
    · cases h
    split at h
    · cases h
    split at h
    · split at h <;> cases h
      rfl
    · cases h
  case readTerminatedBytes =>
    rw [readTerminatedBytes_run] at h
    split at h
    · cases h
    split at h
    · cases h
    split at h <;> cases h
    rfl
  case readGuid =>
    rw [readGuid_run] at h
    obtain ⟨-, -, ⟨⟩⟩ := fits_of_ok h
    rfl

/-! ## Bits, text, bits -/

theorem passed_ordered {b : Buffer} (ho : b.Ordered) : (b.passed 0).Ordered := ⟨ho.rpos_le, ho.wpos_le⟩

/-- A text of no bytes is read wherever the cursors are in order, and drops the byte begun. -/
theorem readString_zero {b : Buffer} (ho : b.Ordered) :
    (Operation.readString 0).run.run b = .ok (.text "") (b.passed 0) ∧
      (b.passed 0).readable = b.readable.drop b.unread.length := by
  have hle : b.rpos + 0 ≤ b.wpos := ho.rpos_le
  have hw := ho.wpos_le
  have hrun : (readString 0).run b = .ok "" (b.passed 0) := by
    rw [readString_run, if_neg (by omega), if_neg (by omega)]
    rfl
  refine ⟨run_map_ok.mpr ⟨_, hrun, rfl⟩, ?_⟩
  have took := took_passed ho hle
  rw [took.readable]
  simp [bytesAt, Bits.ofBytes]

/-- A bit field that is read `r` bits too late, with `p` zeros behind it, is
read as itself only if it is there and is zero. -/
theorem readBits_late_iff {b : Buffer} (ho : b.Ordered) (hu : b.unread.length < 8) {bits : List Bool}
    {r p : Nat} (hone : 1 ≤ bits.length) (hmax : bits.length ≤ 64)
    (h : b.readable = (bits ++ List.replicate p false).drop r) :
    (∃ b', (readBits bits.length).run b = .ok (UInt64.ofNat (Bits.toNat bits)) b') ↔
      r ≤ p ∧ (r = 0 ∨ Bits.toNat bits = 0) := by
  have havail := congrArg List.length h
  rw [length_readable ho, List.length_drop, List.length_append, List.length_replicate] at havail
  by_cases hr : r ≤ p
  · obtain ⟨v, b', hrun, hv, -⟩ := readBits_front ho hu hone hmax (by rw [length_readable ho]; omega)
    rw [h] at hv
    rw [← Bits.toNat_late_iff hr, ← hv]
    constructor
    · rintro ⟨b'', hself⟩
      rw [hrun] at hself
      injection hself with hvalue
      exact ⟨hr, by rw [hvalue, Bits.toNat_word hmax]⟩
    · rintro ⟨-, hvalue⟩
      exact ⟨b', by rw [hrun, ← hvalue, UInt64.ofNat_toNat]⟩
  · refine iff_of_false (fun ⟨b', hrun⟩ => ?_) fun hcond => hr hcond.1
    rw [readBits_run_of_le ho.rpos_le, if_neg (by omega), if_pos (by omega)] at hrun
    cases hrun

theorem performAll_readBits {m : Nat} {n : UInt64} {b b' : Buffer} :
    (performAll [.readBits m]).run b = .ok [.number n] b' ↔ (readBits m).run b = .ok n b' := by
  constructor
  · intro h
    rw [performAll, run_bind_ok] at h
    obtain ⟨answer, b₁, hfirst, hrest⟩ := h
    cases hrest
    obtain ⟨n', hrun, hn⟩ := run_map_ok.mp hfirst
    cases hn
    exact hrun
  · intro h
    have hfirst : (Operation.readBits m).run.run b = .ok (.number n) b' := run_map_ok.mpr ⟨n, h, rfl⟩
    exact (performAll_cons_run hfirst).mpr rfl

def writesAround (v : UInt64) (k : Nat) (s : String) (w : UInt64) (m : Nat) : List Operation :=
  [.writeBits v k, .writeString s, .writeBits w m, .flushBits]

def readsAround (k : Nat) (s : String) (m : Nat) : List Operation :=
  [.readBits k, .readString (Utf8.encode s).length, .readBits m]

/-- The fields' values, as reading them is to give. -/
def valuesAround (v : UInt64) (k : Nat) (s : String) (w : UInt64) (m : Nat) : List Answer :=
  [.number (UInt64.ofNat (v.toNat % 2 ^ k)), .text s, .number (UInt64.ofNat (w.toNat % 2 ^ m))]

theorem reads_writesAround {b : Buffer} (made : Made b) (empty : b.isEmpty) (v w : UInt64) {k m : Nat}
    (hk : 1 ≤ k ∧ k ≤ 64) (hm : 1 ≤ m ∧ m ≤ 64) {s : String} (hs : s ≠ "")
    (room : (k + 7) / 8 + (Utf8.encode s).length + (m + 7) / 8 ≤ b.limit) :
    ∃ full done, (performAll (writesAround v k s w m)).run b = .ok [.done, .done, .done, .done] full ∧
      (performAll (readsAround k s m)).run full = .ok (valuesAround v k s w m) done := by
  have hroom : encodedSize [.bits v k hk.1 hk.2, .text s hs, .bits w m hm.1 hm.2] ≤ b.limit := by
    simp only [encodedSize, stopFrom, Field.coding, Coding.stop, Bits.length_ofNat]
    omega
  obtain ⟨full, hwrite, hreadable, hordered, hunread⟩ := writes_readable made empty _ hroom
  obtain ⟨done, hread, -⟩ := reads_took _ hordered (by simp [hunread]) hreadable
  exact ⟨full, done, hwrite, hread⟩

/-- An empty text is no step between the two fields that are written. -/
theorem writesAround_empty {b : Buffer} (made : Made b) (empty : b.isEmpty) (v w : UInt64) {k m : Nat}
    (hk : 1 ≤ k ∧ k ≤ 64) (hm : 1 ≤ m ∧ m ≤ 64) (room : (k + m + 7) / 8 ≤ b.limit) :
    ∃ full, (performAll (writesAround v k "" w m)).run b = .ok [.done, .done, .done, .done] full ∧
      full.readable = encodeFrom 0 [.bits v k hk.1 hk.2, .bits w m hm.1 hm.2] ∧
      full.Ordered ∧ full.unread = [] := by
  let first : Field := .bits v k hk.1 hk.2
  have hroom : encodedSize [first, .bits w m hm.1 hm.2] ≤ b.limit := by
    simp only [first, encodedSize, stopFrom, Field.coding, Coding.stop, Bits.length_ofNat]
    omega
  have hfit : first.coding.stop b.bitWritePos / 8 ≤ b.limit := by
    simp only [first, Field.coding, Coding.stop, Bits.length_ofNat, made.bitWritePos_eq_zero empty]
    omega
  obtain ⟨full, hwrite, hfull⟩ := writes_readable made empty _ hroom
  obtain ⟨b₁, hfirst, -⟩ := first.write_wrote made.ordered.wpos_le made.wellFormed.pending_lt hfit
  have htext : (Operation.writeString "").run.run b₁ = .ok .done b₁ := rfl
  have hrest := (performAll_cons_run hfirst).mp hwrite
  exact ⟨full, (performAll_cons_run hfirst).mpr ((performAll_cons_run htext).mpr hrest), hfull⟩

/-- Two fields with nothing between them, read with an empty text between them,
come back if the first ends at a byte, or if the second is zero and as many
zeros follow it as the reader drops before it. -/
theorem readsAround_empty_iff {b : Buffer} (ho : b.Ordered) (hu : b.unread = []) {v w : UInt64} {k m : Nat}
    (hk : 1 ≤ k ∧ k ≤ 64) (hm : 1 ≤ m ∧ m ≤ 64)
    (h : b.readable = encodeFrom 0 [.bits v k hk.1 hk.2, .bits w m hm.1 hm.2]) :
    (∃ done, (performAll (readsAround k "" m)).run b = .ok (valuesAround v k "" w m) done) ↔
      8 ∣ k ∨ w.toNat % 2 ^ m = 0 ∧ (padding k).length ≤ (padding (k + m)).length := by
  have hwhole : (0 + b.readable.length) % 8 = 0 := by
    rw [h, add_length_encodeFrom]
    exact Nat.mul_mod_right 8 _
  obtain ⟨b₁, hfirst, took⟩ := Field.read_took ho (by simp [hu]) hwhole (.bits v k hk.1 hk.2) h
  -- The reader is `k` bits into its byte, the second field right before it.
  have hnext : b₁.readable = Bits.ofNat m w.toNat ++ padding (k + m) := by
    have hall := List.append_cancel_left (took.readable.symm.trans h)
    simpa [encodeFrom, Field.coding, Coding.stop, Coding.after] using hall
  have haligned : (k + b₁.readable.length) % 8 = 0 := by
    rw [hnext, List.length_append, Bits.length_ofNat, length_padding]
    omega
  have hpad : padding (k + m) = List.replicate (padding (k + m)).length false := by
    rw [length_padding, padding]
  -- The empty text drops the rest of that byte, and the second field with it.
  obtain ⟨htext, hlate⟩ := readString_zero took.ordered
  rw [length_unread_eq took.ordered took.unread_lt haligned, hnext, hpad] at hlate
  have hsecond := readBits_late_iff (passed_ordered took.ordered) (by simp [passed])
    (by rw [Bits.length_ofNat]; exact hm.1) (by rw [Bits.length_ofNat]; exact hm.2) hlate
  rw [Bits.length_ofNat, Bits.toNat_ofNat] at hsecond
  have hreads : (∃ done, (performAll (readsAround k "" m)).run b = .ok (valuesAround v k "" w m) done) ↔
      ∃ done, (readBits m).run (b₁.passed 0) = .ok (UInt64.ofNat (w.toNat % 2 ^ m)) done := by
    refine exists_congr fun done => ?_
    refine (performAll_cons_run hfirst).trans ((performAll_cons_run htext).trans ?_)
    exact performAll_readBits
  have hdvd : 8 ∣ k ↔ (padding k).length = 0 := by
    rw [length_padding]
    omega
  rw [hreads, hsecond, hdvd]
  omega

/-- Where writing and reading mirror each other at a byte. A byte-aligned read
leaves no byte begun. A byte-aligned write leaves no bits pending exactly if it
has bytes to store or finds none pending. Bits, a text and bits come back
exactly if the text has bytes, or the first bits fill theirs, or the second are
zeros and the zeros after them stand in for the ones that the reader drops. -/
theorem alignment_mirror_iff {b : Buffer} (made : Made b) (empty : b.isEmpty) (v w : UInt64)
    {k m : Nat} (hk : 1 ≤ k ∧ k ≤ 64) (hm : 1 ≤ m ∧ m ≤ 64) (s : String)
    (room : (k + 7) / 8 + (Utf8.encode s).length + (m + 7) / 8 ≤ b.limit) :
    (∀ (op : Operation) (c c' : Buffer) (answer : Answer), op.IsAlignedRead →
        op.run.run c = .ok answer c' → c'.unread = []) ∧
      (∀ (op : Operation) (run : List UInt8) (c c' : Buffer) (answer : Answer), op.stored? = some run →
        op.run.run c = .ok answer c' → (c'.pending = [] ↔ run ≠ [] ∨ c.pending = [])) ∧
      ∃ full, (performAll (writesAround v k s w m)).run b = .ok [.done, .done, .done, .done] full ∧
        ((∃ done, (performAll (readsAround k s m)).run full = .ok (valuesAround v k s w m) done) ↔
          s ≠ "" ∨ 8 ∣ k ∨
            w.toNat % 2 ^ m = 0 ∧ (padding k).length ≤ (padding (k + m)).length) := by
  refine ⟨fun op c c' answer hop h => alignedRead_ok hop h, fun op run c c' answer hop h => ?_, ?_⟩
  · rcases stored_ok hop h with ⟨hne, hnil⟩ | ⟨rfl, rfl⟩
    · exact iff_of_true hnil (.inl hne)
    · simp
  · by_cases hs : s = ""
    · subst hs
      obtain ⟨full, hwrite, hreadable, ho, hu⟩ := writesAround_empty made empty v w hk hm (by omega)
      refine ⟨full, hwrite, ?_⟩
      rw [readsAround_empty_iff ho hu hk hm hreadable]
      simp
    · obtain ⟨full, done, hwrite, hread⟩ := reads_writesAround made empty v w hk hm hs room
      exact ⟨full, hwrite, iff_of_true ⟨done, hread⟩ (.inl hs)⟩

/-- A bit, an empty text and two bits under a ceiling of two bytes. -/
theorem alignment_mirror_iff_empty_text :
    (Buffer.withLimit 0 2).isEmpty ∧
      ∃ full, (performAll (writesAround 1 1 "" 1 2)).run (.withLimit 0 2) =
          .ok [.done, .done, .done, .done] full ∧
        ¬ ∃ done, (performAll (readsAround 1 "" 2)).run full = .ok (valuesAround 1 1 "" 1 2) done := by
  have hempty : (Buffer.withLimit 0 2).isEmpty := rfl
  obtain ⟨-, -, full, hwrite, hread⟩ := alignment_mirror_iff (.fresh (.withLimit 0 2)) hempty 1 1
    (k := 1) (m := 2) (by decide) (by decide) "" (by decide)
  exact ⟨hempty, full, hwrite, by rw [hread]; decide⟩

def oneBitPending : Buffer := (Operation.writeBits 1 1).after .empty

/-- The empty text leaves the bit pending, and of the two bits after it none is left to read. -/
theorem pending_after_empty_text :
    Reachable oneBitPending ∧ (Operation.writeString "").run.run oneBitPending = .ok .done oneBitPending ∧
      oneBitPending.pending = [true] ∧
      ∃ full done, (performAll (writesAround 1 1 "" 1 2)).run .empty =
          .ok [.done, .done, .done, .done] full ∧
        (performAll (readsAround 1 "" 2)).run full = .error (.refused (.position 1 1 1)) done :=
  ⟨.step _ (.made (.fresh .empty)), rfl, rfl, _, _, rfl, rfl⟩

end PacketWire
