/-
Where the fields of a message lie, and how reading them ends.

A schema reads its fields as runs of bytes, one after another: it ends with all
of them, is refused at the first that reaches past the write cursor, or aborts
at the first that reaches past the stored bytes (`Ends`). `Message.layout` gives
the widths of the runs, and `Message.spelled` the message that they spell, each
field at its own offset. That the schemas read just so is `Message.read_ends`.
-/
import Mathlib.Algebra.Ring.Nat
import PacketWire.Proofs.Buffer.Stream

namespace PacketWire

open Buffer

/-! ## Readers of byte runs -/

/-- How reading runs of these widths in turn ends. -/
def Ends {α : Type} (value : List UInt8 → α) : List Nat → Buffer → EStateM.Result Failure Buffer α → Prop
  | [], b, r => r = .ok (value []) b
  | width :: widths, b, r =>
    if b.wpos < b.rpos + width then ∃ b', r = .error (.refused (.position b.rpos b.wpos width)) b'
    else if b.size < b.rpos + width then ∃ b', r = .error .overrun b'
    else Ends (fun rest => value (b.bytesAt b.rpos width ++ rest)) widths (b.passed width) r

/-- A reader of runs of these widths, with what it makes of their bytes. -/
def Reads {α : Type} (m : BufferM α) (widths : List Nat) (value : List UInt8 → α) : Prop :=
  ∀ b, Ends value widths b (m.run b)

/-- Only the bytes of the runs matter to what is made of them. -/
theorem Ends.congr {α : Type} {r : EStateM.Result Failure Buffer α} :
    ∀ {widths : List Nat} {value value' : List UInt8 → α} {b : Buffer}, Ends value widths b r →
      (∀ run, run.length = widths.sum → value run = value' run) → Ends value' widths b r
  | [], value, value', b, h, heq => by
    rw [Ends, ← heq [] rfl]
    exact h
  | width :: widths, value, value', b, h, heq => by
    rw [Ends] at h ⊢
    split
    next hshort => rwa [if_pos hshort] at h
    next hfits =>
      rw [if_neg hfits] at h
      split
      next hpast => rwa [if_pos hpast] at h
      next hstored =>
        rw [if_neg hstored] at h
        refine h.congr fun run hrun => heq _ ?_
        rw [List.length_append, length_bytesAt (by omega), hrun, List.sum_cons]

theorem Reads.congr {α : Type} {m : BufferM α} {widths : List Nat} {value value' : List UInt8 → α}
    (hm : Reads m widths value) (heq : ∀ run, run.length = widths.sum → value run = value' run) :
    Reads m widths value' :=
  fun b => (hm b).congr heq

theorem Reads.pure {α : Type} (a : α) : Reads (pure a) [] (fun _ => a) := fun _ => rfl

/-- A reader that is done goes on with the next one, behind its runs. -/
theorem Ends.bind {α β : Type} {m : BufferM α} {f : α → BufferM β} {later : List Nat}
    {next : α → List UInt8 → β} (hf : ∀ a, Reads (f a) later (next a)) {start : Buffer} :
    ∀ {widths : List Nat} {value : List UInt8 → α} {b : Buffer}, Ends value widths b (m.run start) →
      Ends (fun run => next (value (run.take widths.sum)) (run.drop widths.sum)) (widths ++ later) b
        ((m >>= f).run start)
  | [], value, b, h => by
    rw [run_bind_of_ok h]
    exact hf (value []) b
  | width :: widths, value, b, h => by
    simp only [Ends, List.cons_append] at h ⊢
    split
    next hshort =>
      rw [if_pos hshort] at h
      obtain ⟨b', hrun⟩ := h
      exact ⟨b', run_bind_of_error hrun⟩
    next hfits =>
      rw [if_neg hfits] at h
      split
      next hpast =>
        rw [if_pos hpast] at h
        obtain ⟨b', hrun⟩ := h
        exact ⟨b', run_bind_of_error hrun⟩
      next hstored =>
        rw [if_neg hstored] at h
        have hlen : (b.bytesAt b.rpos width).length = width := length_bytesAt (by omega)
        refine (Ends.bind hf h).congr fun run _ => ?_
        generalize b.bytesAt b.rpos width = first at hlen
        rw [List.sum_cons, ← hlen, List.take_length_add_append, List.drop_length_add_append]

theorem Reads.bind {α β : Type} {m : BufferM α} {f : α → BufferM β} {widths later : List Nat}
    {value : List UInt8 → α} {next : α → List UInt8 → β} (hm : Reads m widths value)
    (hf : ∀ a, Reads (f a) later (next a)) :
    Reads (m >>= f) (widths ++ later) fun run => next (value (run.take widths.sum)) (run.drop widths.sum) :=
  fun b => Ends.bind hf (hm b)

theorem Ends.map {α β : Type} (f : α → β) {m : BufferM α} {start : Buffer} :
    ∀ {widths : List Nat} {value : List UInt8 → α} {b : Buffer}, Ends value widths b (m.run start) →
      Ends (fun run => f (value run)) widths b ((f <$> m).run start)
  | [], value, b, h => run_map_ok.mpr ⟨_, h, rfl⟩
  | width :: widths, value, b, h => by
    simp only [Ends] at h ⊢
    split
    next hshort =>
      rw [if_pos hshort] at h
      exact h.imp fun b' hrun => run_map_error.mpr hrun
    next hfits =>
      rw [if_neg hfits] at h
      split
      next hpast =>
        rw [if_pos hpast] at h
        exact h.imp fun b' hrun => run_map_error.mpr hrun
      next hstored =>
        rw [if_neg hstored] at h
        exact h.map f

theorem Reads.map {α β : Type} {m : BufferM α} {widths : List Nat} {value : List UInt8 → α} (f : α → β)
    (hm : Reads m widths value) : Reads (f <$> m) widths fun run => f (value run) :=
  fun b => (hm b).map f

/-- Where all runs lie before the write cursor and are stored, all are taken. -/
theorem Ends.eq_ok {α : Type} {r : EStateM.Result Failure Buffer α} :
    ∀ {widths : List Nat} {value : List UInt8 → α} {b : Buffer}, Ends value widths b r →
      b.rpos + widths.sum ≤ b.wpos → b.rpos + widths.sum ≤ b.size →
      r = .ok (value (b.bytesAt b.rpos widths.sum)) (widths.foldl passed b)
  | [], value, b, h, _, _ => h
  | width :: widths, value, b, h, hw, hs => by
    rw [List.sum_cons] at hw hs ⊢
    rw [Ends, if_neg (by omega), if_neg (by omega)] at h
    have hrest := h.eq_ok (by simp only [passed]; omega) (by simp only [passed, size] at hs ⊢; omega)
    rw [hrest, List.foldl_cons]
    simp only [bytesAt, passed, List.take_add, List.drop_drop]

/-- Where the runs reach past the write cursor, the first that does is refused. -/
theorem Ends.eq_refused {α : Type} {r : EStateM.Result Failure Buffer α} :
    ∀ {widths : List Nat} {value : List UInt8 → α} {b : Buffer}, Ends value widths b r → b.Ordered →
      b.wpos < b.rpos + widths.sum →
      ∃ before width after, widths = before ++ width :: after ∧
        b.rpos + before.sum ≤ b.wpos ∧ b.wpos < b.rpos + before.sum + width ∧
        ∃ b', r = .error (.refused (.position (b.rpos + before.sum) b.wpos width)) b'
  | [], _, b, _, ho, hw => absurd ho.rpos_le (Nat.not_le.mpr hw)
  | width :: widths, value, b, h, ho, hw => by
    have hr := ho.rpos_le
    have hs := ho.wpos_le
    rw [Ends] at h
    split at h
    next hshort => exact ⟨[], width, widths, rfl, hr, hshort, h⟩
    next hfits =>
      rw [if_neg (by omega)] at h
      have hnext : (b.passed width).Ordered := ⟨Nat.not_lt.mp hfits, hs⟩
      obtain ⟨before, width', after, rfl, hle, hlt, b', rfl⟩ :=
        h.eq_refused hnext (by simp only [passed, List.sum_cons] at hw ⊢; omega)
      simp only [passed, Nat.add_assoc] at hle hlt ⊢
      exact ⟨width :: before, width', after, rfl, by simpa using hle,
        by simpa [Nat.add_assoc] using hlt, b', by simp⟩

/-- Reading aborts where a run ends one past the stored bytes and the write cursor lets it. -/
theorem Ends.overrun_iff {α : Type} {r : EStateM.Result Failure Buffer α} :
    ∀ {widths : List Nat} {value : List UInt8 → α} {b : Buffer}, Ends value widths b r →
      b.wpos ≤ b.size + 1 →
      ((∃ b', r = .error .overrun b') ↔ b.wpos = b.size + 1 ∧
        ∃ taken, taken <+: widths ∧ taken ≠ [] ∧ b.rpos + taken.sum = b.size + 1)
  | [], value, b, h, _ => by
    rw [Ends] at h
    subst h
    simp
  | width :: widths, value, b, h, hw => by
    rw [Ends] at h
    split at h
    next hshort =>
      obtain ⟨b', rfl⟩ := h
      refine iff_of_false (by simp) ?_
      rintro ⟨hpast, taken, htaken, hne, hsum⟩
      obtain ⟨head, taken, rfl⟩ := List.exists_cons_of_ne_nil hne
      obtain ⟨rfl, -⟩ := List.cons_prefix_cons.mp htaken
      rw [List.sum_cons] at hsum
      omega
    next hfits =>
      split at h
      next hpast =>
        refine iff_of_true h ⟨by omega, [width], by simp, by simp, ?_⟩
        simp only [List.sum_cons, List.sum_nil]
        omega
      next hstored =>
        have hsize : (b.passed width).size = b.size := rfl
        have hrest := h.overrun_iff (by simpa [passed, size] using hw)
        rw [hrest, hsize]
        refine and_congr_right fun _ => ⟨?_, ?_⟩
        · rintro ⟨taken, htaken, -, hsum⟩
          refine ⟨width :: taken, List.cons_prefix_cons.mpr ⟨rfl, htaken⟩, by simp, ?_⟩
          rw [List.sum_cons, ← Nat.add_assoc]
          exact hsum
        · rintro ⟨taken, htaken, hne, hsum⟩
          obtain ⟨head, taken, rfl⟩ := List.exists_cons_of_ne_nil hne
          obtain ⟨rfl, hprefix⟩ := List.cons_prefix_cons.mp htaken
          rw [List.sum_cons, ← Nat.add_assoc] at hsum
          refine ⟨taken, hprefix, ?_, hsum⟩
          rintro rfl
          simp only [List.sum_nil] at hsum
          omega

/-! ## Values in a byte run -/

/-- The number that the `width` bytes from `offset` on spell, least significant first. -/
def numberAt (p : List UInt8) (offset width : Nat) : Nat :=
  LittleEndian.decode ((p.drop offset).take width)

def byteAt (p : List UInt8) (offset : Nat) : UInt8 := .ofNat (numberAt p offset 1)

def wordAt (p : List UInt8) (offset : Nat) : UInt32 := .ofNat (numberAt p offset 4)

def guidAt (p : List UInt8) (offset : Nat) : Guid where
  low := .ofNat (numberAt p offset 8)
  high := .ofNat (numberAt p (offset + 8) 8)

def maskAt (p : List UInt8) (offset : Nat) : NodeMask := ⟨.ofNat 64 (numberAt p offset 8)⟩

@[simp] theorem numberAt_drop (p : List UInt8) (n offset width : Nat) :
    numberAt (p.drop n) offset width = numberAt p (n + offset) width := by
  rw [numberAt, numberAt, List.drop_drop]

@[simp] theorem numberAt_tail (p : List UInt8) (offset width : Nat) :
    numberAt p.tail offset width = numberAt p (1 + offset) width := by
  rw [← List.drop_one, numberAt_drop]

/-- What follows a field does not matter to it. -/
@[simp] theorem numberAt_take {p : List UInt8} {n offset width : Nat} (h : offset + width ≤ n) :
    numberAt (p.take n) offset width = numberAt p offset width := by
  rw [numberAt, numberAt, List.drop_take, List.take_take, Nat.min_eq_left (by omega)]

theorem numberAt_zero {run : List UInt8} {width : Nat} (h : run.length = width) :
    numberAt run 0 width = LittleEndian.decode run := by
  rw [numberAt, List.drop_zero, List.take_of_length_le h.le]

/-! ## Fields -/

theorem reads_bytes (len : Nat) : Reads (readBytes len) [len] id := by
  intro b
  rw [Ends, readBytes_run]
  split
  · exact ⟨_, rfl⟩
  · split
    · exact ⟨_, rfl⟩
    · simp [Ends]

theorem reads_scalar {t : ScalarType} (hvalid : ∀ v, t.isValid v = true) :
    Reads (Buffer.read t) [t.size] fun run => t.ofWord (numberAt run 0 t.size) := by
  have hdecode : Reads (Buffer.read t) [t.size] t.decode := by
    intro b
    rw [Ends, read_run]
    split
    · exact ⟨_, rfl⟩
    · split
      · exact ⟨_, rfl⟩
      · simp [Ends, hvalid]
  exact hdecode.congr fun run hrun => by rw [numberAt_zero (by simpa using hrun), ScalarType.decode]

theorem reads_u8 : Reads (Buffer.read .u8) [1] (byteAt · 0) := reads_scalar fun _ => rfl

theorem reads_u32 : Reads (Buffer.read .u32) [4] (wordAt · 0) := reads_scalar fun _ => rfl

theorem reads_i32 : Reads (Buffer.read .i32) [4] fun run => (wordAt run 0).toInt32 :=
  reads_scalar fun _ => rfl

theorem reads_mask : Reads NodeMask.read [8] (maskAt · 0) :=
  ((reads_bytes NodeMask.size).map NodeMask.decode).congr fun run hrun => by
    have hlen : run.length = 8 := hrun
    rw [maskAt, numberAt_zero hlen]
    rfl

theorem reads_guid : Reads Guid.read [16] (guidAt · 0) :=
  ((reads_bytes Guid.size).map Guid.decode).congr fun run hrun => by
    have hlen : run.length = 16 := hrun
    have hhigh : numberAt run 8 8 = LittleEndian.decode (run.drop 8) := by
      rw [← numberAt_zero (by rw [List.length_drop, hlen]), numberAt_drop]
    rw [guidAt, hhigh]
    rfl

/-! ## Messages -/

/-- The map whose fields begin at `start`, behind the bit that says whether it has a window. -/
def mapAt (hasWindow : Bool) (p : List UInt8) (start : Nat) : ServerMessage :=
  if hasWindow then
    .showTaxiNodes (some ⟨guidAt p start, (wordAt p (start + 16)).toInt32⟩)
      (maskAt p (start + 20)) (maskAt p (start + 28))
  else .showTaxiNodes none (maskAt p start) (maskAt p (start + 8))

theorem mapAt_drop (hasWindow : Bool) (p : List UInt8) (n : Nat) :
    mapAt hasWindow (p.drop n) 0 = mapAt hasWindow p n := by
  simp [mapAt, guidAt, wordAt, maskAt]

def mapLayout (hasWindow : Bool) : List Nat := if hasWindow then [16, 4, 8, 8] else [8, 8]

/-- The widths of a message's fields in order; of a map's, once its first bit is known. -/
def Message.layout (hasWindow : Bool) : Opcode → List Nat
  | .client .taxiNodeStatusQuery | .client .enableTaxiNode | .client .taxiQueryAvailableNodes => [16]
  | .client .activateTaxi => [16, 4, 4, 4]
  | .client .taxiRequestEarlyLanding => []
  | .server .taxiNodeStatus => [1, 16]
  | .server .showTaxiNodes => 1 :: mapLayout hasWindow
  | .server .newTaxiPath => [4]
  | .server .activateTaxiReply => [1]

/-- The message that a payload spells, each field at its offset. -/
def Message.spelled (hasWindow : Bool) (p : List UInt8) : Opcode → Message
  | .client .taxiNodeStatusQuery => .client (.taxiNodeStatusQuery (guidAt p 0))
  | .client .enableTaxiNode => .client (.enableTaxiNode (guidAt p 0))
  | .client .taxiQueryAvailableNodes => .client (.taxiQueryAvailableNodes (guidAt p 0))
  | .client .activateTaxi =>
    .client (.activateTaxi (guidAt p 0) (wordAt p 16) (wordAt p 20) (wordAt p 24))
  | .client .taxiRequestEarlyLanding => .client .taxiRequestEarlyLanding
  | .server .taxiNodeStatus => .server (.taxiNodeStatus (byteAt p 0) (guidAt p 1))
  | .server .showTaxiNodes => .server (mapAt hasWindow p 1)
  | .server .newTaxiPath => .server (.newTaxiPath (wordAt p 0).toInt32)
  | .server .activateTaxiReply => .server (.activateTaxiReply (byteAt p 0))

/-- The fields of a map behind its first bit. -/
def readMap (hasWindow : Bool) : BufferM ServerMessage := do
  let window ← if hasWindow then some <$> MapWindow.read else pure none
  let canLand ← NodeMask.read
  let canUse ← NodeMask.read
  return .showTaxiNodes window canLand canUse

theorem readMap_reads (hasWindow : Bool) :
    Reads (readMap hasWindow) (mapLayout hasWindow) (mapAt hasWindow · 0) := by
  cases hasWindow with
  | false =>
    have h := reads_mask.bind fun canLand => reads_mask.bind fun canUse =>
      Reads.pure (ServerMessage.showTaxiNodes none canLand canUse)
    exact h.congr fun run _ => by simp [mapAt, maskAt]
  | true =>
    have hwindow : Reads MapWindow.read [16, 4] fun run => ⟨guidAt run 0, (wordAt run 16).toInt32⟩ :=
      (reads_guid.bind fun unit => reads_i32.bind fun node => Reads.pure (MapWindow.mk unit node)).congr
        fun run _ => by simp [guidAt, wordAt]
    have h := (hwindow.map some).bind fun window => reads_mask.bind fun canLand =>
      reads_mask.bind fun canUse => Reads.pure (ServerMessage.showTaxiNodes window canLand canUse)
    exact h.congr fun run _ => by simp [mapAt, guidAt, wordAt, maskAt]

/-- Of every schema but the map's, whose first field is a bit, the fields are runs throughout. -/
theorem Message.read_reads (hasWindow : Bool) :
    ∀ {op : Opcode}, op ≠ .server .showTaxiNodes →
      Reads (Message.read op) (layout hasWindow op) (spelled hasWindow · op)
  | .client .taxiNodeStatusQuery, _ =>
    ((reads_guid.bind fun unit => Reads.pure (ClientMessage.taxiNodeStatusQuery unit)).map _).congr
      fun run _ => by simp [spelled, guidAt]
  | .client .enableTaxiNode, _ =>
    ((reads_guid.bind fun unit => Reads.pure (ClientMessage.enableTaxiNode unit)).map _).congr
      fun run _ => by simp [spelled, guidAt]
  | .client .taxiQueryAvailableNodes, _ =>
    ((reads_guid.bind fun unit => Reads.pure (ClientMessage.taxiQueryAvailableNodes unit)).map _).congr
      fun run _ => by simp [spelled, guidAt]
  | .client .activateTaxi, _ =>
    ((reads_guid.bind fun vendor => reads_u32.bind fun node => reads_u32.bind fun groundMount =>
      reads_u32.bind fun flyingMount =>
        Reads.pure (ClientMessage.activateTaxi vendor node groundMount flyingMount)).map _).congr
      fun run _ => by simp [spelled, guidAt, wordAt]
  | .client .taxiRequestEarlyLanding, _ => (Reads.pure ClientMessage.taxiRequestEarlyLanding).map _
  | .server .taxiNodeStatus, _ =>
    ((reads_u8.bind fun status => reads_guid.bind fun unit =>
      Reads.pure (ServerMessage.taxiNodeStatus status unit)).map _).congr
      fun run _ => by simp [spelled, byteAt, guidAt]
  | .server .showTaxiNodes, hop => absurd rfl hop
  | .server .newTaxiPath, _ =>
    ((reads_i32.bind fun path => Reads.pure (ServerMessage.newTaxiPath path)).map _).congr
      fun run _ => by simp [spelled, wordAt]
  | .server .activateTaxiReply, _ =>
    ((reads_u8.bind fun reply => Reads.pure (ServerMessage.activateTaxiReply reply)).map _).congr
      fun run _ => by simp [spelled, byteAt]

/-! ## Maps -/

/-- The bit that comes next, of the byte begun or of the next byte. -/
def Buffer.nextBit (b : Buffer) : Bool :=
  match b.unread with
  | bit :: _ => bit
  | [] => b.contents[b.rpos]?.any (·.toNat.testBit 7)

theorem showTaxiNodes_run (b : Buffer) :
    (ServerMessage.read .showTaxiNodes).run b = match readBit.run b with
      | .ok hasWindow b' => (readMap hasWindow).run b'.dropUnread
      | .error e b' => .error e b' := by
  have hsteps : ServerMessage.read .showTaxiNodes =
      readBit >>= fun hasWindow => modify dropUnread >>= fun _ => readMap hasWindow := rfl
  rw [hsteps, EStateM.run_bind]
  cases readBit.run b <;> rfl

/-- Where no byte is begun, the bit in front of a map takes a byte of its own. -/
theorem showTaxiNodes_ends {b : Buffer} (hu : b.unread = []) :
    Ends (mapAt b.nextBit · 1) (1 :: mapLayout b.nextBit) b ((ServerMessage.read .showTaxiNodes).run b) := by
  rw [showTaxiNodes_run, readBit_run, nextBit, hu, Ends]
  split
  · exact ⟨_, rfl⟩
  next hfits =>
    split
    next hpast =>
      have hnone : b.contents[b.rpos]? = none := List.getElem?_eq_none (by unfold size at hpast; omega)
      simp [hnone]
    next hstored =>
      have hlt : b.rpos < b.contents.length := by unfold size at hstored; omega
      simp only [List.getElem?_eq_getElem hlt, Option.any_some]
      refine (readMap_reads _ (b.passed 1)).congr fun run _ => ?_
      have hlen : (b.bytesAt b.rpos 1).length = 1 := length_bytesAt (Nat.not_lt.mp hstored)
      rw [← mapAt_drop _ _ 1, List.drop_left' hlen]

/-- Where a byte is begun, the bit in front of a map is its next one. -/
theorem showTaxiNodes_ends_begun {b : Buffer} (hu : b.unread ≠ []) :
    Ends (mapAt b.nextBit · 0) (mapLayout b.nextBit) b ((ServerMessage.read .showTaxiNodes).run b) := by
  obtain ⟨bit, rest, hbits⟩ := List.exists_cons_of_ne_nil hu
  have hmap := readMap_reads bit b.dropUnread
  rw [showTaxiNodes_run, readBit_run, nextBit, hbits]
  -- From its first run on, the reader does not see that the byte begun was dropped.
  cases bit <;> exact hmap

/-! ## Messages from any place -/

/-- The runs that a message's fields take from here on. -/
def Message.runs (b : Buffer) (op : Opcode) : List Nat :=
  if op = .server .showTaxiNodes ∧ b.unread ≠ [] then mapLayout b.nextBit else layout b.nextBit op

/-- Where no byte is begun, a schema reads its layout, and what the bytes spell. -/
theorem Message.read_ends {b : Buffer} (hu : b.unread = []) (op : Opcode) :
    Ends (spelled b.nextBit · op) (layout b.nextBit op) b ((Message.read op).run b) := by
  by_cases hop : op = .server .showTaxiNodes
  · subst hop
    exact (showTaxiNodes_ends hu).map Message.server
  · exact Message.read_reads b.nextBit hop b

theorem Message.read_ends_runs (b : Buffer) (op : Opcode) :
    ∃ value, Ends value (runs b op) b ((Message.read op).run b) := by
  unfold runs
  split
  next h =>
    obtain ⟨rfl, hu⟩ := h
    exact ⟨_, (showTaxiNodes_ends_begun hu).map Message.server⟩
  next h =>
    by_cases hop : op = .server .showTaxiNodes
    · exact ⟨_, Message.read_ends (not_not.mp fun hu => h ⟨hop, hu⟩) op⟩
    · exact ⟨_, Message.read_reads b.nextBit hop b⟩

end PacketWire
