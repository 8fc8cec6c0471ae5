/-
Reading and writing one buffer in turns.

What a read needs is stored before the write cursor, and a write leaves that as
it is (`Grows`) and does not look at the reader's side of the buffer (`Aside`).
A read in turn leaves the writer's side (`Behind`). So reads that succeed alone
and writes that succeed alone do so in whatever order they take turns, with the
same answers, and what is left is the writer's side of the one run and the
reader's side of the other (`interleaved_run`).
-/
import PacketWire.Proofs.Buffer.Ceiling
import PacketWire.Proofs.Field

namespace PacketWire.Buffer

/-! ## The two sides of a buffer -/

/-- The buffer with the reader's side of another. -/
def withReader (b r : Buffer) : Buffer := { b with rpos := r.rpos, unread := r.unread }

/-- What was stored before the write cursor is there, and perhaps more. -/
structure Grows (b b' : Buffer) : Prop where
  wpos_le : b.wpos ≤ b'.wpos
  size_le : b.size ≤ b'.size
  stored : b'.contents.take (min b.wpos b.size) = b.contents.take (min b.wpos b.size)
  inside : b.wpos ≤ b.size → b'.wpos ≤ b'.size

theorem Grows.refl (b : Buffer) : Grows b b := ⟨Nat.le_refl _, Nat.le_refl _, rfl, id⟩

theorem Grows.trans {b₁ b₂ b₃ : Buffer} (h : Grows b₁ b₂) (h' : Grows b₂ b₃) : Grows b₁ b₃ where
  wpos_le := Nat.le_trans h.wpos_le h'.wpos_le
  size_le := Nat.le_trans h.size_le h'.size_le
  stored := by
    have hle : min b₁.wpos b₁.size ≤ min b₂.wpos b₂.size := by
      have := h.wpos_le
      have := h.size_le
      omega
    have hstored := congrArg (List.take (min b₁.wpos b₁.size)) h'.stored
    rw [List.take_take, List.take_take, Nat.min_eq_left hle] at hstored
    rw [hstored, h.stored]
  inside hle := h'.inside (h.inside hle)

theorem Grows.place (b : Buffer) (src : List UInt8) : Grows b (b.place src) where
  wpos_le := Nat.le_add_right _ _
  size_le := by
    rw [size_place]
    exact Nat.le_max_left _ _
  stored := by
    have hpad : b.wpos ≤ (b.contents ++ List.replicate (b.wpos - b.size) 0).length := by
      rw [List.length_append, List.length_replicate, ← size]
      omega
    have hstored : min b.wpos b.size ≤ b.contents.length := Nat.min_le_right _ _
    rw [Buffer.place, take_overwrite_of_le hpad (Nat.min_le_left _ _), List.take_append_of_le_length hstored]
  inside _ := by
    rw [size_place]
    exact Nat.le_max_right _ _

theorem Grows.placeBits (b : Buffer) (bits : List Bool) : Grows b (b.placeBits bits) := by
  have hplace := Grows.place { b with pending := [] } [Bits.toByte bits]
  exact ⟨hplace.wpos_le, hplace.size_le, hplace.stored, hplace.inside⟩

theorem Grows.pushBit (b : Buffer) (bit : Bool) : Grows b (b.pushBit bit) := by
  unfold Buffer.pushBit
  split
  · exact ⟨Nat.le_refl _, Nat.le_refl _, rfl, id⟩
  · exact .placeBits b _

theorem Grows.flushed (b : Buffer) : Grows b b.flushed := by
  unfold Buffer.flushed
  split
  · exact .refl b
  · exact .placeBits b _

/-- Stored bytes before the write cursor stay. -/
theorem Grows.bytesAt_eq {b b' : Buffer} (h : Grows b b') {start len : Nat} (hw : start + len ≤ b.wpos)
    (hs : start + len ≤ b.size) : b'.bytesAt start len = b.bytesAt start len := by
  have htake : ∀ c : Buffer, c.bytesAt start len = ((c.contents.take (min b.wpos b.size)).drop start).take len := by
    intro c
    rw [bytesAt, List.drop_take, List.take_take, Nat.min_eq_left (by omega)]
  rw [htake b', h.stored, ← htake b]

/-- The reader's side does not matter to it. -/
theorem Grows.of_withReader {b c : Buffer} (h : Grows b c) (r : Buffer) : Grows (b.withReader r) c :=
  ⟨h.wpos_le, h.size_le, h.stored, h.inside⟩

theorem Grows.not_short {b c : Buffer} (h : Grows b c) {len : Nat} (hw : ¬ b.wpos < b.rpos + len) :
    ¬ (c.withReader b).wpos < (c.withReader b).rpos + len :=
  fun hlt => hw (Nat.lt_of_le_of_lt h.wpos_le hlt)

theorem Grows.not_past {b c : Buffer} (h : Grows b c) {len : Nat} (hs : ¬ b.size < b.rpos + len) :
    ¬ (c.withReader b).size < (c.withReader b).rpos + len :=
  fun hlt => hs (Nat.lt_of_le_of_lt h.size_le hlt)

/-- What lies between the cursors is still the first of it. -/
theorem Grows.between_prefix {b c : Buffer} (h : Grows b c) (hr : b.rpos ≤ b.wpos) (hw : b.wpos ≤ b.size) :
    b.between <+: (c.withReader b).between := by
  have hbytes : c.bytesAt b.rpos (b.wpos - b.rpos) = b.between :=
    h.bytesAt_eq (by omega) (by omega)
  have hlen : b.wpos - b.rpos ≤ c.wpos - b.rpos := Nat.sub_le_sub_right h.wpos_le _
  rw [← hbytes, bytesAt, ← Nat.min_eq_left hlen, ← List.take_take]
  exact List.take_prefix _ _

/-! ## Writes -/

/-- A writer that does not look at the reader's side, and leaves what is stored
before the write cursor. -/
def Aside {α : Type} (m : BufferM α) : Prop :=
  ∀ b a b', m.run b = .ok a b' →
    Grows b b' ∧ ∀ r : Buffer, m.run (b.withReader r) = .ok a (b'.withReader r)

theorem Aside.bind {α β : Type} {m : BufferM α} {f : α → BufferM β} (hm : Aside m)
    (hf : ∀ a, Aside (f a)) : Aside (m >>= f) := by
  intro b y b' h
  obtain ⟨a, b₁, hfirst, hrest⟩ := run_bind_ok.mp h
  obtain ⟨grows₁, haside₁⟩ := hm b a b₁ hfirst
  obtain ⟨grows, haside⟩ := hf a b₁ y b' hrest
  exact ⟨grows₁.trans grows, fun r => by rw [run_bind_of_ok (haside₁ r), haside r]⟩

theorem Aside.pure {α : Type} (a : α) : Aside (Pure.pure a) := by
  rintro b _ _ ⟨⟩
  exact ⟨.refl b, fun _ => rfl⟩

theorem Aside.map {α β : Type} {f : α → β} {m : BufferM α} (hm : Aside m) : Aside (f <$> m) := by
  intro b y b' h
  obtain ⟨a, hrun, rfl⟩ := run_map_ok.mp h
  obtain ⟨grows, haside⟩ := hm b a b' hrun
  exact ⟨grows, fun r => run_map_ok.mpr ⟨a, haside r, rfl⟩⟩

theorem flushed_withReader (b r : Buffer) : (b.withReader r).flushed = b.flushed.withReader r := by
  by_cases h : b.pending = []
  · rw [flushed_of_nil h]
    exact if_pos h
  · have hflushed : b.flushed = b.placeBits b.pending := if_neg h
    rw [hflushed]
    exact if_neg h

theorem pushBit_withReader (b r : Buffer) (bit : Bool) :
    (b.withReader r).pushBit bit = (b.pushBit bit).withReader r := by
  by_cases h : b.pending.length + 1 < 8
  · have hpushed : b.pushBit bit = { b with pending := b.pending ++ [bit] } := if_pos h
    rw [hpushed]
    exact if_pos h
  · have hpushed : b.pushBit bit = b.placeBits (b.pending ++ [bit]) := if_neg h
    rw [hpushed]
    exact if_neg h

/-- A writer that the writer's side alone holds back, or lets be done. -/
theorem Aside.guarded {m : BufferM Unit} {full : Buffer → Prop} [DecidablePred full]
    {failure : Buffer → Failure} {done : Buffer → Buffer}
    (hrun : ∀ b, m.run b = if full b then .error (failure b) b else .ok () (done b))
    (hgrows : ∀ b, Grows b (done b)) (hfull : ∀ b r : Buffer, full (b.withReader r) ↔ full b)
    (hdone : ∀ b r : Buffer, done (b.withReader r) = (done b).withReader r) : Aside m := by
  intro b a b' h
  rw [hrun] at h
  split at h
  · cases h
  next hroom =>
    cases h
    refine ⟨hgrows b, fun r => ?_⟩
    rw [hrun, if_neg ((hfull b r).not.mpr hroom), hdone]

theorem aside_checkLimit (extra : Nat) : Aside (checkLimit extra) :=
  .guarded (checkLimit_run extra) .refl (fun _ _ => .rfl) fun _ _ => rfl

theorem aside_flushBits : Aside flushBits :=
  .guarded flushBits_run .flushed (fun _ _ => .rfl) flushed_withReader

theorem aside_writeBit (bit : Bool) : Aside (writeBit bit) := by
  intro b a b' h
  rw [writeBit_run] at h
  split at h
  · cases h
  split at h
  · cases h
  next hplace hroom =>
    cases h
    refine ⟨.pushBit b bit, fun r => ?_⟩
    rw [writeBit_run, ← pushBit_withReader]
    exact (if_neg hplace).trans (if_neg hroom)

theorem aside_sequential : Sequential Aside := ⟨Aside.pure, Aside.bind⟩

/-- A writer may look at the writer's side before it begins. -/
theorem Aside.look {α : Type} {f : Buffer → BufferM α} (hf : ∀ b, Aside (f b))
    (hside : ∀ b r : Buffer, f (b.withReader r) = f b) : Aside (get >>= f) := by
  intro b a b' h
  have hrun : ∀ c : Buffer, (get >>= f).run c = (f c).run c := fun _ => rfl
  rw [hrun] at h
  obtain ⟨grows, haside⟩ := hf b b a b' h
  exact ⟨grows, fun r => by rw [hrun, hside, haside]⟩

theorem aside_refuse {α : Type} (cause : CodecError) : Aside (refuse cause : BufferM α) :=
  fun _ _ _ h => nomatch h

theorem aside_append (src : List UInt8) : Aside (append src) := by
  by_cases hne : src = []
  · intro b _ _ h
    rw [append_run, if_pos hne] at h
    cases h
  · have hrun := fun b => (append_run src b).trans (if_neg hne)
    refine .guarded hrun (fun b => (Grows.flushed b).trans (.place _ src)) (fun _ _ => .rfl) fun b r => ?_
    rw [flushed_withReader]
    rfl

theorem aside_write (t : ScalarType) (value : t.Value) : Aside (write t value) := write_of_append aside_append t value

theorem aside_appendBuffer (source : Buffer) : Aside (appendBuffer source) := by
  unfold appendBuffer
  split
  · exact .pure ()
  · split
    · exact fun _ _ _ h => nomatch h
    · exact aside_append _

theorem aside_writeString (text : String) : Aside (writeString text) := by
  unfold writeString
  split
  · exact .pure ()
  · exact aside_append _

theorem aside_writeTerminated (text : String) : Aside (writeTerminated text) :=
  .look (fun _ => .bind (aside_checkLimit _) fun _ => .bind (aside_writeString text) fun _ => aside_write _ _)
    fun _ _ => rfl

theorem aside_checkBitCount (count : Nat) : Aside (checkBitCount count) := by
  unfold checkBitCount
  split
  · exact aside_refuse _
  · exact .pure ()

theorem aside_writeBits (value : UInt64) (count : Nat) : Aside (writeBits value count) := by
  rw [writeBits_eq]
  exact .bind (aside_checkBitCount count) fun _ =>
    .look (fun _ => .bind (aside_checkLimit _) fun _ => aside_sequential.forM_writeBit aside_writeBit _) fun _ _ => rfl

theorem Operation.IsWrite.aside {op : Operation} (h : op.IsWrite) : Aside op.run := by
  cases op <;> try exact h.elim
  case append src => exact (aside_append src).map
  case appendBuffer source => exact (aside_appendBuffer source).map
  case write t value => exact (aside_write t value).map
  case writeString text => exact (aside_writeString text).map
  case writeTerminated text => exact (aside_writeTerminated text).map
  case writeGuid guid => exact (aside_append _).map
  case writeBit bit => exact (aside_writeBit bit).map
  case writeBits value count => exact (aside_writeBits value count).map
  case flushBits => exact aside_flushBits.map

/-! ## Reads -/

/-- A reader that leaves the writer's side, and does the same where more was written. -/
def Behind {α : Type} (m : BufferM α) : Prop :=
  ∀ b a b', m.run b = .ok a b' →
    b' = b.withReader b' ∧ ∀ c, Grows b c → m.run (c.withReader b) = .ok a (c.withReader b')

theorem Behind.bind {α β : Type} {m : BufferM α} {f : α → BufferM β} (hm : Behind m)
    (hf : ∀ a, Behind (f a)) : Behind (m >>= f) := by
  intro b y b' h
  obtain ⟨a, b₁, hfirst, hrest⟩ := run_bind_ok.mp h
  obtain ⟨hside₁, hbehind₁⟩ := hm b a b₁ hfirst
  obtain ⟨hside, hbehind⟩ := hf a b₁ y b' hrest
  refine ⟨?_, fun c hc => ?_⟩
  · rw [hside, hside₁]
    rfl
  · have hc₁ : Grows b₁ c := by
      rw [hside₁]
      exact hc.of_withReader b₁
    rw [run_bind_of_ok (hbehind₁ c hc), hbehind c hc₁]

theorem Behind.pure {α : Type} (a : α) : Behind (Pure.pure a) := by
  rintro b _ _ ⟨⟩
  exact ⟨rfl, fun _ _ => rfl⟩

theorem Behind.map {α β : Type} {f : α → β} {m : BufferM α} (hm : Behind m) : Behind (f <$> m) := by
  intro b y b' h
  obtain ⟨a, hrun, rfl⟩ := run_map_ok.mp h
  obtain ⟨hside, hbehind⟩ := hm b a b' hrun
  exact ⟨hside, fun c hc => run_map_ok.mpr ⟨a, hbehind c hc, rfl⟩⟩

theorem behind_advance (len : Nat) : Behind (advance len) := by
  rintro b _ _ ⟨⟩
  exact ⟨rfl, fun _ _ => rfl⟩

/-- A reader of the stored bytes from the read cursor on, wherever it leaves the cursor. -/
theorem Behind.of_slice {m : BufferM (List UInt8)} {len : Nat} {short past : Buffer → Failure}
    {stuck passed : Buffer → Buffer}
    (hrun : ∀ b, m.run b =
      if b.wpos < b.rpos + len then .error (short b) b
      else if b.size < b.rpos + len then .error (past b) (stuck b)
      else .ok (b.bytesAt b.rpos len) (passed b))
    (hpassed : ∀ b c : Buffer, passed (c.withReader b) = c.withReader (passed b)) : Behind m := by
  intro b a b' h
  rw [hrun] at h
  split at h
  · cases h
  split at h
  · cases h
  next hw hs =>
    cases h
    refine ⟨hpassed b b, fun c hc => ?_⟩
    have hbytes : (c.withReader b).bytesAt b.rpos len = b.bytesAt b.rpos len :=
      hc.bytesAt_eq (Nat.not_lt.mp hw) (Nat.not_lt.mp hs)
    rw [hrun, if_neg (hc.not_short hw), if_neg (hc.not_past hs), hpassed, ← hbytes]
    rfl

theorem behind_peek (len : Nat) : Behind (peek len) := .of_slice (peek_run len) fun _ _ => rfl

theorem behind_readBytes (len : Nat) : Behind (readBytes len) :=
  .of_slice (readBytes_run len) fun _ _ => rfl

theorem takeWhile_of_prefix {run longer : List UInt8} (h : run <+: longer) (hzero : 0 ∈ run) :
    longer.takeWhile (· != 0) = run.takeWhile (· != 0) := by
  obtain ⟨rest, rfl⟩ := h
  rw [List.takeWhile_append, if_neg]
  rw [length_takeWhile_ne_zero]
  exact not_not.mpr hzero

theorem behind_peekTerminated : Behind peekTerminated := by
  intro b a b' h
  rw [peekTerminated_run] at h
  split at h
  · cases h
  split at h
  · cases h
  split at h
  next hr hs hzero =>
    cases h
    refine ⟨rfl, fun c hc => ?_⟩
    have hle : b.rpos < b.wpos := Nat.not_le.mp hr
    have hlonger := hc.between_prefix hle.le (Nat.not_lt.mp hs)
    have hwpos : ¬ (c.withReader b).wpos ≤ (c.withReader b).rpos :=
      Nat.not_le.mpr (Nat.lt_of_lt_of_le hle hc.wpos_le)
    have hsize : ¬ (c.withReader b).size < (c.withReader b).wpos :=
      Nat.not_lt.mpr (hc.inside (Nat.not_lt.mp hs))
    rw [peekTerminated_run, if_neg hwpos, if_neg hsize, if_pos (hlonger.subset hzero),
      takeWhile_of_prefix hlonger hzero]
  · cases h

theorem behind_refuse {α : Type} (cause : CodecError) : Behind (refuse cause : BufferM α) :=
  fun _ _ _ h => nomatch h

theorem behind_decodeText (raw : List UInt8) : Behind (decodeText raw) := by
  unfold decodeText
  split
  · exact .pure _
  · exact behind_refuse _

theorem behind_read (t : ScalarType) : Behind (read t) := by
  refine .bind (behind_peek _) fun raw => ?_
  simp only
  split
  · exact .bind (behind_refuse _) fun _ => .bind (behind_advance _) fun _ => .pure _
  · exact .bind (behind_advance _) fun _ => .pure _

theorem behind_readString (len : Nat) : Behind (readString len) :=
  .bind (behind_peek len) fun raw => .bind (behind_decodeText raw) fun _ =>
    .bind (behind_advance len) fun _ => .pure _

theorem behind_readTerminatedBytes : Behind readTerminatedBytes :=
  .bind behind_peekTerminated fun _ => .bind (behind_advance _) fun _ => .pure _

theorem behind_readTerminated : Behind readTerminated :=
  .bind behind_peekTerminated fun raw => .bind (behind_decodeText raw) fun _ =>
    .bind (behind_advance _) fun _ => .pure _

theorem behind_skip (len : Nat) : Behind (skip len) := .bind (behind_readBytes len) fun _ => .pure _

theorem behind_readGuid : Behind Guid.read := .bind (behind_readBytes _) fun _ => .pure _

theorem behind_readBit : Behind readBit := by
  intro b a b' h
  rw [readBit_run] at h
  split at h
  next bit rest hunread =>
    cases h
    refine ⟨rfl, fun c _ => ?_⟩
    have hbits : (c.withReader b).unread = a :: rest := hunread
    rw [readBit_run, hbits]
    rfl
  next hunread =>
    split at h
    · cases h
    split at h
    · cases h
    next hw _ byte hbyte =>
      cases h
      refine ⟨rfl, fun c hc => ?_⟩
      have hbits : (c.withReader b).unread = [] := hunread
      -- The byte begun lies before the write cursor, where the writer changes nothing.
      have hsame : (c.withReader b).contents[(c.withReader b).rpos]? = some byte := by
        have hrpos : b.rpos < min b.wpos b.size := by
          have hlt := (List.getElem?_eq_some_iff.mp hbyte).1
          unfold size
          omega
        have hstored := congrArg (·[b.rpos]?) hc.stored
        simp only [List.getElem?_take_of_lt hrpos, hbyte] at hstored
        exact hstored
      rw [readBit_run, hbits]
      simp only [hc.not_short hw, if_false, hsame]
      rfl

theorem behind_sequential : Sequential Behind := ⟨Behind.pure, Behind.bind⟩

theorem behind_readBits (count : Nat) : Behind (readBits count) := by
  intro b a b' h
  rw [readBits_run] at h
  split at h
  · cases h
  split at h
  · cases h
  split at h
  · cases h
  next hcount hr henough =>
    split at h
    next bits b₁ htake =>
      cases h
      obtain ⟨hside, hbehind⟩ := behind_sequential.takeBits behind_readBit count b bits b' htake
      refine ⟨hside, fun c hc => ?_⟩
      have hwpos := hc.wpos_le
      have hbehind' : (c.withReader b).rpos ≤ (c.withReader b).wpos := Nat.le_trans (Nat.not_lt.mp hr) hwpos
      have havailable : ¬ (c.withReader b).availableBits < count := by
        have hleft : b.availableBits ≤ (c.withReader b).availableBits := by
          simp only [availableBits, remaining, withReader]
          omega
        omega
      rw [readBits_run_of_le hbehind', if_neg hcount, if_neg havailable, hbehind c hc]
    · cases h

/-- A read at the read cursor. -/
def Operation.IsRead : Operation → Prop
  | .read _ | .readBytes _ | .skip _ | .readString _ | .readTerminated | .readTerminatedBytes | .readGuid
  | .readBit | .readBits _ => True
  | _ => False

theorem Operation.IsRead.behind {op : Operation} (h : op.IsRead) : Behind op.run := by
  cases op <;> try exact h.elim
  case read t => exact (behind_read t).map
  case readBytes len => exact (behind_readBytes len).map
  case skip len => exact (behind_skip len).map
  case readString len => exact (behind_readString len).map
  case readTerminated => exact behind_readTerminated.map
  case readTerminatedBytes => exact behind_readTerminatedBytes.map
  case readGuid => exact behind_readGuid.map
  case readBit => exact behind_readBit.map
  case readBits count => exact (behind_readBits count).map

/-! ## Taking turns -/

/-- The third list has the elements of the first and of the second, both in their order. -/
inductive Interleaved {α : Type} : List α → List α → List α → Prop
  | nil : Interleaved [] [] []
  | left (a : α) {xs ys zs : List α} : Interleaved xs ys zs → Interleaved (a :: xs) ys (a :: zs)
  | right (a : α) {xs ys zs : List α} : Interleaved xs ys zs → Interleaved xs (a :: ys) (a :: zs)

/-- Reads behind a writer that is ahead of them, and its writes, in turns. -/
theorem performAll_interleaved {reads writes script : List Operation} (h : Interleaved reads writes script) :
    ∀ {br bw br' bw' : Buffer} {answers dones : List Answer}, (∀ op ∈ reads, op.IsRead) →
      (∀ op ∈ writes, op.IsWrite) → Grows br bw → (performAll reads).run br = .ok answers br' →
      (performAll writes).run bw = .ok dones bw' →
      ∃ results, (performAll script).run (bw.withReader br) = .ok results (bw'.withReader br') ∧
        Interleaved (reads.zip answers) (writes.zip dones) (script.zip results) := by
  -- On the turns left. `br` is where the reads alone have come to and `bw` where the
  -- writes alone have: the script runs on `bw` with the reader's side of `br`.
  induction h with
  | nil =>
    intro br bw br' bw' answers dones _ _ _ hreads hwrites
    cases hreads
    cases hwrites
    exact ⟨[], rfl, .nil⟩
  | left op _ ih =>
    intro br bw br' bw' answers dones isRead isWrite grows hreads hwrites
    obtain ⟨answer, rest, br₁, rfl, hop, hrest⟩ := performAll_cons_ok hreads
    obtain ⟨hside, hbehind⟩ := (isRead op (List.mem_cons_self ..)).behind br answer br₁ hop
    -- A read leaves nothing that the writer would have to be ahead of.
    have hgrows : Grows br₁ bw := by
      rw [hside]
      exact grows.of_withReader br₁
    obtain ⟨results, hrun, hinterleaved⟩ :=
      ih (fun op hmem => isRead op (List.mem_cons_of_mem _ hmem)) isWrite hgrows hrest hwrites
    exact ⟨answer :: results, (performAll_cons_run (hbehind bw grows)).mpr hrun, .left _ hinterleaved⟩
  | right op _ ih =>
    intro br bw br' bw' answers dones isRead isWrite grows hreads hwrites
    obtain ⟨result, rest, bw₁, rfl, hop, hrest⟩ := performAll_cons_ok hwrites
    obtain ⟨hgrows, haside⟩ := (isWrite op (List.mem_cons_self ..)).aside bw result bw₁ hop
    obtain ⟨results, hrun, hinterleaved⟩ :=
      ih isRead (fun op hmem => isWrite op (List.mem_cons_of_mem _ hmem)) (grows.trans hgrows) hreads hrest
    exact ⟨result :: results, (performAll_cons_run (haside br)).mpr hrun, .right _ hinterleaved⟩

/-- Whatever the buffer, reads that all succeed on it in their order and writes that
do so in theirs succeed in every order that keeps both. Every read and every write
then gives what it gives without the others, and what is left does not depend on
the turns: the writer's side as the writes alone leave it, and the reader's as the
reads do. -/
theorem interleaved_run {b br bw : Buffer} {reads writes script : List Operation}
    {answers dones : List Answer} (isRead : ∀ op ∈ reads, op.IsRead)
    (isWrite : ∀ op ∈ writes, op.IsWrite) (readsRun : (performAll reads).run b = .ok answers br)
    (writesRun : (performAll writes).run b = .ok dones bw) (turns : Interleaved reads writes script) :
    ∃ results, (performAll script).run b = .ok results (bw.withReader br) ∧
      Interleaved (reads.zip answers) (writes.zip dones) (script.zip results) :=
  performAll_interleaved turns isRead isWrite (.refl b) readsRun writesRun

/-- Five stored bytes, the last two to be overwritten. -/
def steppedBack : Buffer :=
  (Operation.setWritePos 3).after ((Operation.append [1, 0, 2, 3, 4]).after (.withLimit 0 9))

/-- Half a byte, the rest up to a zero and a byte are read while bits, bytes and a bit are written. -/
theorem interleaved_run_steppedBack :
    ∃ results, (performAll [.writeBits 5 3, .readBits 4, .append [9], .readTerminatedBytes, .writeBit true,
        .readBytes 1, .flushBits]).run steppedBack =
      .ok results ⟨[1, 0, 2, 0xA0, 9, 0x80], 3, 6, [], [], 300, 9⟩ := by
  have hreads : ∀ op ∈ [.readBits 4, .readTerminatedBytes, .readBytes 1], Operation.IsRead op := by
    simp [Operation.IsRead]
  have hwrites : ∀ op ∈ [.writeBits 5 3, .append [9], .writeBit true, .flushBits], Operation.IsWrite op := by
    simp [Operation.IsWrite]
  have hread : (performAll [.readBits 4, .readTerminatedBytes, .readBytes 1]).run steppedBack =
      .ok [.number 0, .bytes [], .bytes [2]] ⟨[1, 0, 2, 3, 4], 3, 3, [], [], 300, 9⟩ := rfl
  have hbits : (Operation.writeBits 5 3).run.run steppedBack =
      .ok .done ⟨[1, 0, 2, 3, 4], 0, 3, [true, false, true], [], 300, 9⟩ := rfl
  have hrest : (performAll [.append [9], .writeBit true, .flushBits]).run
      ⟨[1, 0, 2, 3, 4], 0, 3, [true, false, true], [], 300, 9⟩ =
      .ok [.done, .done, .done] ⟨[1, 0, 2, 0xA0, 9, 0x80], 0, 6, [], [], 300, 9⟩ := rfl
  have hwritten := (performAll_cons_run hbits).mpr hrest
  obtain ⟨results, hrun, -⟩ := interleaved_run hreads hwrites hread hwritten
    (.right _ (.left _ (.right _ (.left _ (.right _ (.left _ (.right _ .nil)))))))
  exact ⟨results, hrun⟩

end PacketWire.Buffer
