/-
What a run of bytes replaces.

A byte-aligned write goes over the store from the write cursor on: first the byte
that the pending bits make, if there are any, then the run. What lies before and
behind them stays (`append_splices`). Runs in turn are one run (`appends_run`), so a
region is rewritten without a change outside it. Another buffer is stored with all
that it holds up to its write cursor, also with what was read of it
(`appendBuffer_eq_iff`).
-/
import PacketWire.Proofs.Buffer.BitFields

namespace PacketWire.Buffer

/-! ## Where a run goes -/

/-- The byte that a flush stores, if it stores one. -/
def filler (b : Buffer) : List UInt8 := if b.pending = [] then [] else [Bits.toByte b.pending]

theorem length_filler (b : Buffer) : b.filler.length = b.flushSize := by
  by_cases h : b.pending = []
  · rw [filler, if_pos h, flushSize_of_nil h, List.length_nil]
  · rw [filler, if_neg h, flushSize_of_ne h, List.length_singleton]

/-- It is the pending bits and zeros. -/
theorem ofBytes_filler {b : Buffer} (hp : b.pending.length < 8) :
    Bits.ofBytes b.filler = b.pending ++ padding b.pending.length := by
  by_cases h : b.pending = []
  · rw [filler, if_pos h, h]
    rfl
  · have hpos := List.length_pos_iff.mpr h
    have hfill : (8 - b.pending.length % 8) % 8 = 8 - b.pending.length := by omega
    rw [filler, if_neg h, Bits.ofBytes_cons, Bits.ofByte_toByte_pad hp.le, padding, hfill, Bits.ofBytes,
      List.flatMap_nil, List.append_nil]

theorem contents_flushed {b : Buffer} (h : b.wpos ≤ b.size) :
    b.flushed.contents = overwrite b.contents b.wpos b.filler := by
  by_cases hp : b.pending = []
  · rw [flushed_of_nil hp, filler, if_pos hp, overwrite_nil]
  · rw [flushed, if_neg hp, filler, if_neg hp, placeBits]
    exact contents_place (b := { b with pending := [] }) h _

theorem contents_flushed_place {b : Buffer} (h : b.wpos ≤ b.size) (hp : b.pending.length < 8) (src : List UInt8) :
    (b.flushed.place src).contents = overwrite b.contents b.wpos (b.filler ++ src) := by
  rw [contents_place (wrote_flushed h hp).wpos_le, contents_flushed h, wpos_flushed, ← length_filler,
    overwrite_next h]

/-! ## Runs in turn -/

theorem append_run_of_le {b : Buffer} {src : List UInt8} (hne : src ≠ [])
    (room : b.wpos + b.flushSize + src.length ≤ b.limit) : (append src).run b = .ok () (b.flushed.place src) := by
  rw [append_run, if_neg hne, if_neg (by omega)]

/-- Bytes before the write cursor can be read from wherever they stand. -/
theorem readBytes_from {b : Buffer} {pos len : Nat} (hw : pos + len ≤ b.wpos) (hs : pos + len ≤ b.size) :
    (setReadPos pos >>= fun _ => readBytes len).run b =
      .ok (b.bytesAt pos len) { b with rpos := pos + len, unread := [] } := by
  have hseek := setReadPos_run pos b
  rw [if_neg (by omega)] at hseek
  have hread := readBytes_run len { b with rpos := pos, unread := [] }
  have hstored : pos + len ≤ ({ b with rpos := pos, unread := [] } : Buffer).size := hs
  rw [if_neg (Nat.not_lt.mpr hw), if_neg (Nat.not_lt.mpr hstored)] at hread
  rw [run_bind_of_ok hseek, hread]
  rfl

/-- A run is read back from where the byte of the pending bits ends, as what it decodes to. -/
theorem append_read_back {α : Type} {b : Buffer} (h : b.wpos ≤ b.size) (hp : b.pending.length < 8)
    {src : List UInt8} (hne : src ≠ []) (room : b.wpos + b.flushSize + src.length ≤ b.limit)
    (decode : List UInt8 → α) :
    ∃ b', (do append src; setReadPos (b.wpos + b.flushSize); return decode (← readBytes src.length)).run b =
      .ok (decode src) b' := by
  have hflushed : b.flushed.wpos ≤ b.flushed.size := (wrote_flushed h hp).wpos_le
  have hwpos : (b.flushed.place src).wpos = b.wpos + b.flushSize + src.length := by simp
  have hsize : b.wpos + b.flushSize + src.length ≤ (b.flushed.place src).size := by
    rw [size_place, ← hwpos, wpos_place]
    omega
  have hstored : (b.flushed.place src).bytesAt (b.wpos + b.flushSize) src.length = src := by
    have hrun := take_drop_overwrite hflushed src 0
    rwa [← contents_place hflushed, wpos_flushed] at hrun
  obtain ⟨left, hread⟩ : ∃ left, (do setReadPos (b.wpos + b.flushSize); readBytes src.length).run
      (b.flushed.place src) = .ok src left := ⟨_, by rw [readBytes_from hwpos.ge hsize, hstored]⟩
  refine ⟨left, ?_⟩
  rw [run_bind_of_ok (append_run_of_le hne room), ← bind_assoc, run_bind_of_ok hread]
  rfl

/-- Where no bits are pending, runs are stored in turn as one. -/
theorem appends_run : ∀ (runs : List (List UInt8)) {b : Buffer}, b.wpos ≤ b.size → b.pending = [] →
    (∀ run ∈ runs, run ≠ []) → b.wpos + runs.flatten.length ≤ b.limit →
    ∃ b', (runs.forM append).run b = .ok () b' ∧ b'.contents = overwrite b.contents b.wpos runs.flatten
  | [], b, _, _, _, _ => ⟨b, rfl, (overwrite_nil _ _).symm⟩
  | run :: runs, b, h, hp, hne, room => by
    rw [List.flatten_cons, List.length_append] at room
    have hfirst : (append run).run b = .ok () (b.place run) := by
      have hrun := append_run_of_le (b := b) (hne run (List.mem_cons_self ..))
        (by rw [flushSize_of_nil hp]; omega)
      rwa [flushed_of_nil hp] at hrun
    have inside : (b.place run).wpos ≤ (b.place run).size := by
      rw [size_place, wpos_place]
      omega
    obtain ⟨b', hrest, hcontents⟩ := appends_run runs (b := b.place run) inside hp
      (fun run hmem => hne run (List.mem_cons_of_mem _ hmem)) (by rw [wpos_place, limit_place]; omega)
    refine ⟨b', ?_, ?_⟩
    · rw [List.forM_eq_forM, List.forM_cons, run_bind_of_ok hfirst, ← List.forM_eq_forM, hrest]
    · rw [hcontents, contents_place h, wpos_place, overwrite_next h, List.flatten_cons]

/-! ## Rewriting a region -/

/-- Sent back over stored bytes, a buffer without pending bits stores runs there in turn. -/
theorem rewritten_run {b : Buffer} {pos : Nat} {runs : List (List UInt8)} (hp : b.pending = []) (hr : b.rpos ≤ pos)
    (hw : pos ≤ b.size) (hne : ∀ run ∈ runs, run ≠ []) (room : pos + runs.flatten.length ≤ b.limit) :
    ∃ b', (do setWritePos pos; runs.forM append).run b = .ok () b' ∧
      b'.contents = overwrite b.contents pos runs.flatten := by
  have hmove : (setWritePos pos).run b = .ok () { b with wpos := pos } := by
    rw [setWritePos_run, if_neg (by omega), if_neg fun h => h.1 hp, flushed_of_nil hp]
  obtain ⟨b', hrun, hcontents⟩ := appends_run runs (b := { b with wpos := pos }) hw hp hne room
  exact ⟨b', by rw [run_bind_of_ok hmove, hrun], hcontents⟩

/-- Whatever a buffer went through, unless its write cursor stands past the stored
bytes. A run that the ceiling admits is put at the write cursor, behind the byte
that the pending bits and zeros make; the bytes before it and behind it are those
that were there, and nothing changes on the reader's side. So runs that are stored
in turn from an earlier place on are all that changes, byte for byte. -/
theorem append_splices {b : Buffer} (reachable : Reachable b) (inside : b.wpos ≤ b.size) :
    (∀ src, src ≠ [] → b.wpos + b.flushSize + src.length ≤ b.limit →
      ∃ b' filler, (append src).run b = .ok () b' ∧
        Bits.ofBytes filler = b.pending ++ padding b.pending.length ∧
        b'.contents = b.contents.take b.wpos ++ filler ++ src ++ b.contents.drop b'.wpos ∧
        b'.wpos = b.wpos + filler.length + src.length ∧ b'.size = max b.size b'.wpos ∧
        b'.pending = [] ∧ b'.rpos = b.rpos ∧ b'.unread = b.unread ∧ b'.limit = b.limit) ∧
    ∀ pos (runs : List (List UInt8)), b.pending = [] → b.rpos ≤ pos → pos ≤ b.size → (∀ run ∈ runs, run ≠ []) →
      pos + runs.flatten.length ≤ b.limit →
      ∃ b', (do setWritePos pos; runs.forM append).run b = .ok () b' ∧
        (∀ i < runs.flatten.length, b'.contents[pos + i]? = runs.flatten[i]?) ∧
        ∀ i, i < pos ∨ pos + runs.flatten.length ≤ i → b'.contents[i]? = b.contents[i]? := by
  have hp := reachable.wellFormed.pending_lt
  refine ⟨fun src hne room => ?splice, fun pos runs hnil hr hw hne room => ?rewrite⟩
  case splice =>
    have hcontents := contents_flushed_place inside hp src
    have hwpos : (b.flushed.place src).wpos = b.wpos + b.filler.length + src.length := by
      rw [wpos_place, wpos_flushed, length_filler]
    refine ⟨_, b.filler, append_run_of_le hne room, ofBytes_filler hp, ?_, hwpos, ?_, by simp, by simp, by simp, by simp⟩
    · rw [hcontents, hwpos, overwrite, List.length_append, Nat.add_assoc, List.append_assoc _ b.filler]
    · rw [size, hcontents, length_overwrite inside, hwpos, List.length_append, Nat.add_assoc, size]
  case rewrite =>
    obtain ⟨b', hrun, hcontents⟩ := rewritten_run hnil hr hw hne room
    refine ⟨b', hrun, fun i hi => ?_, fun i hi => ?_⟩
    · rw [hcontents, getElem?_overwrite_add hw hi]
    · rw [hcontents]
      rcases hi with hi | hi
      · exact getElem?_overwrite_of_lt hw hi
      · exact getElem?_overwrite_of_le hw hi

/-- Between the first and the last of four stored bytes go the three pending bits,
with zeros, and a byte. Two runs in turn go over the two bytes between them. -/
theorem append_splices_rewound :
    Reachable rewound ∧
      (∃ b', (append [9]).run rewound = .ok () b' ∧ b'.contents = [1, 0xA0, 9, 4] ∧ b'.wpos = 3) ∧
      ∃ b', (do setWritePos 1; [[7], [8]].forM append).run ((Operation.append [1, 2, 3, 4]).after .empty) = .ok () b' ∧
        b'.contents[0]? = some 1 ∧ b'.contents[1]? = some 7 ∧ b'.contents[3]? = some 4 := by
  have hreach : Reachable rewound := .step _ (.step _ (.step _ (.made (.fresh (.withLimit 0 4)))))
  have hstored : Reachable ((Operation.append [1, 2, 3, 4]).after .empty) := .step _ (.made (.fresh .empty))
  refine ⟨hreach, ?_, ?_⟩
  · obtain ⟨b', filler, hrun, hfiller, hcontents, hwpos, -⟩ :=
      (append_splices hreach (by decide)).1 [9] (by decide) (by decide)
    have hbyte : Bits.ofBytes filler = Bits.ofBytes [0xA0] := by
      rw [hfiller]
      decide
    obtain rfl : filler = [0xA0] := Bits.ofBytes_injective hbyte
    have hend : b'.wpos = 3 := hwpos
    rw [hend] at hcontents
    exact ⟨b', hrun, hcontents, hend⟩
  · obtain ⟨b', hrun, hregion, houtside⟩ :=
      (append_splices hstored (by decide)).2 1 [[7], [8]] rfl (by decide) (by decide) (by decide) (by decide)
    exact ⟨b', hrun, houtside 0 (.inl (by decide)), hregion 0 (by decide), houtside 3 (.inr (by decide))⟩

/-! ## Storing what another buffer holds -/

/-- Stores the bytes that are left to read of another buffer, if there are any. -/
def appendRemaining (source : Buffer) : BufferM Unit :=
  if source.between = [] then pure () else append source.between

/-- The bytes between the cursors are those that a read of all of them gives. -/
theorem readBytes_remaining {b : Buffer} (ho : b.Ordered) :
    (readBytes b.remaining).run b = .ok b.between (b.passed b.remaining) := by
  obtain ⟨hr, hw⟩ := ho
  have hend : b.rpos + b.remaining = b.wpos := Nat.add_sub_of_le hr
  rw [readBytes_run, if_neg (by omega), if_neg (by omega)]
  rfl

/-- Up to its write cursor a buffer holds the bytes that were read and those that were not. -/
theorem take_contents_eq {b : Buffer} (hr : b.rpos ≤ b.wpos) :
    b.contents.take b.wpos = b.contents.take b.rpos ++ b.between := by
  have hend : b.wpos = b.rpos + b.remaining := (Nat.add_sub_of_le hr).symm
  rw [hend, List.take_add, between, bytesAt]

theorem wpos_of_append {b b' : Buffer} {src : List UInt8} (h : (append src).run b = .ok () b') :
    b'.wpos = b.wpos + b.flushSize + src.length := by
  rw [append_run] at h
  split at h
  · cases h
  split at h
  · cases h
  · cases h
    rw [wpos_place, wpos_flushed]

/-- Another buffer is stored with the bytes that were read from it in front. So it
is stored as what is left to read of it exactly if nothing was read. -/
theorem appendBuffer_eq_iff {source b b' : Buffer} (ordered : source.Ordered)
    (stored : (appendBuffer source).run b = .ok () b') :
    (readBytes source.remaining).run source = .ok source.between (source.passed source.remaining) ∧
      (if source.wpos = 0 then b' = b
        else (append (source.contents.take source.rpos ++ source.between)).run b = .ok () b') ∧
      ((appendRemaining source).run b = .ok () b' ↔ source.rpos = 0) := by
  have hr := ordered.rpos_le
  have hlen := length_between ordered
  have hend : source.rpos + source.remaining = source.wpos := Nat.add_sub_of_le hr
  refine ⟨readBytes_remaining ordered, ?_⟩
  rw [appendBuffer_run, if_neg (Nat.not_lt.mpr ordered.wpos_le), take_contents_eq hr] at stored
  by_cases hzero : source.wpos = 0
  · rw [if_pos hzero] at stored ⊢
    cases stored
    have hnone : source.between = [] := List.eq_nil_of_length_eq_zero (by omega)
    refine ⟨rfl, iff_of_true ?_ (by omega)⟩
    rw [appendRemaining, if_pos hnone]
    rfl
  · rw [if_neg hzero] at stored ⊢
    refine ⟨stored, fun h => ?_, fun hnone => ?_⟩
    · have hwpos := wpos_of_append stored
      have hread : (source.contents.take source.rpos).length = source.rpos :=
        List.length_take_of_le (Nat.le_trans hr ordered.wpos_le)
      rw [List.length_append, hread] at hwpos
      unfold appendRemaining at h
      split at h
      next hempty =>
        -- Nothing is left to read, and nothing would be stored of it.
        cases h
        omega
      next =>
        have := wpos_of_append h
        omega
    · have hsome : source.between ≠ [] := fun hempty => by
        rw [hempty, List.length_nil] at hlen
        omega
      rw [hnone, List.take_zero, List.nil_append] at stored
      rwa [appendRemaining, if_neg hsome]

/-- Three stored bytes, the first of them read. -/
def firstRead : Buffer := (Operation.readBytes 1).after ((Operation.append [7, 8, 9]).after .empty)

/-- Stored, it brings the byte that was read from it along. -/
theorem appendBuffer_eq_iff_firstRead :
    firstRead.Ordered ∧ ∃ b', (appendBuffer firstRead).run .empty = .ok () b' ∧
      (append ([7] ++ firstRead.between)).run .empty = .ok () b' ∧
      ¬ (appendRemaining firstRead).run .empty = .ok () b' := by
  have hordered : firstRead.Ordered := by decide
  have hstored : (appendBuffer firstRead).run .empty = .ok () (Buffer.empty.place [7, 8, 9]) := rfl
  obtain ⟨-, happend, hiff⟩ := appendBuffer_eq_iff hordered hstored
  exact ⟨hordered, _, hstored, happend, mt hiff.mp (by decide)⟩

/-- What is stored of it is not what is left to read of it. -/
theorem appendBuffer_ne_appendRemaining :
    Reachable .empty ∧ Reachable firstRead ∧ firstRead.Ordered ∧
      (readBytes firstRead.remaining).run firstRead = .ok [8, 9] (firstRead.passed 2) ∧
      ∃ b' c, (appendBuffer firstRead).run .empty = .ok () b' ∧ b'.contents = [7, 8, 9] ∧
        (append [8, 9]).run .empty = .ok () c ∧ c.contents = [8, 9] ∧ b' ≠ c :=
  have hempty : Reachable .empty := .made (.fresh .empty)
  ⟨hempty, .step _ (.step _ hempty), by decide, rfl, _, _, rfl, rfl, rfl, rfl, by decide⟩

end PacketWire.Buffer
