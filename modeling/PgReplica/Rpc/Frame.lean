import PgReplica.Failover

/-! # Frames on a byte stream

A frame is written as its length in four bytes and its bytes. A reader sees the
stream in pieces that need not agree with the frames.
-/

namespace PgReplica

def maxFrame : Nat := 4 * 1024 * 1024

/-- `u32::to_be_bytes`. -/
def toBeBytes32 (x : Nat) : List UInt8 :=
  (List.range 4).map fun k => UInt8.ofNat (x / 256 ^ (3 - k))

/-- What `write_frame` puts on the stream. The length is cast to 32 bits. -/
def writeFrame (bytes : List UInt8) : List UInt8 :=
  toBeBytes32 (bytes.length % 2 ^ 32) ++ bytes

inductive FrameError where
  | unexpectedEof
  | tooLarge
deriving DecidableEq

/-- What a stream delivers before it ends, one piece for each read. -/
abbrev Chunks :=
  List (List UInt8)

/-- `read_exact`: the rest of the last piece stays on the stream. -/
def readExact : Nat → Chunks → Except FrameError (List UInt8 × Chunks)
  | 0, chunks => .ok ([], chunks)
  | _ + 1, [] => .error .unexpectedEof
  | n + 1, chunk :: rest =>
      if n + 1 ≤ chunk.length then .ok (chunk.take (n + 1), chunk.drop (n + 1) :: rest)
      else (readExact (n + 1 - chunk.length) rest).map fun out => (chunk ++ out.1, out.2)

def readFrame (chunks : Chunks) : Except FrameError (List UInt8 × Chunks) := do
  let (len, rest) ← readExact 4 chunks
  let n := fromBeBytes len
  if maxFrame < n then .error .tooLarge
  else readExact n rest

/-- The number of bytes that a `read_frame` which has read `got` still asks the
stream for. -/
def missing (got : List UInt8) : Nat :=
  if got.length < 4 then 4 - got.length else 4 + fromBeBytes (got.take 4) - got.length

theorem lt_of_le_maxFrame {n : Nat} (hmax : n ≤ maxFrame) : n < 2 ^ 32 := by
  unfold maxFrame at hmax
  omega

@[simp] theorem length_toBeBytes32 (x : Nat) : (toBeBytes32 x).length = 4 := by
  simp [toBeBytes32]

theorem fromBeBytes_toBeBytes32 {x : Nat} (hx : x < 2 ^ 32) :
    fromBeBytes (toBeBytes32 x) = x :=
  (fromBeBytes_map_range 4 x).trans (Nat.mod_eq_of_lt hx)

theorem toBeBytes32_fromBeBytes {bytes : List UInt8} (hlength : bytes.length = 4) :
    toBeBytes32 (fromBeBytes bytes) = bytes := by
  match bytes, hlength with
  | [a, b, c, d], _ =>
      have ha := a.toNat_lt
      have hb := b.toNat_lt
      have hc := c.toNat_lt
      have hd := d.toNat_lt
      simp only [fromBeBytes, toBeBytes32, List.range, List.range.loop, List.map_cons,
        List.map_nil, List.foldl_cons, List.foldl_nil, List.cons.injEq, and_true,
        ← UInt8.toNat_inj, UInt8.toNat_ofNat']
      omega

@[simp] theorem length_writeFrame (bytes : List UInt8) :
    (writeFrame bytes).length = 4 + bytes.length := by
  simp [writeFrame]

@[simp] theorem take_writeFrame (bytes : List UInt8) :
    (writeFrame bytes).take 4 = toBeBytes32 (bytes.length % 2 ^ 32) := by
  simp [writeFrame]

@[simp] theorem drop_writeFrame (bytes : List UInt8) : (writeFrame bytes).drop 4 = bytes := by
  simp [writeFrame]

/-! ## Reading exactly -/

theorem readExact_of_le {n : Nat} {chunks : Chunks} (hn : n ≤ chunks.flatten.length) :
    ∃ rest, readExact n chunks = .ok (chunks.flatten.take n, rest) ∧
      rest.flatten = chunks.flatten.drop n := by
  induction chunks generalizing n with
  | nil =>
      obtain rfl : n = 0 := by simpa using hn
      exact ⟨[], rfl, rfl⟩
  | cons chunk rest ih =>
      cases n with
      | zero => exact ⟨chunk :: rest, by simp [readExact], rfl⟩
      | succ n =>
          by_cases hfits : n + 1 ≤ chunk.length
          · refine ⟨chunk.drop (n + 1) :: rest, ?_, ?_⟩
            · rw [readExact, if_pos hfits, List.flatten_cons, List.take_append_of_le_length hfits]
            · rw [List.flatten_cons, List.flatten_cons, List.drop_append_of_le_length hfits]
          · have hlength : chunk.length ≤ n + 1 := by omega
            rw [List.flatten_cons, List.length_append] at hn
            obtain ⟨left, hread, hleft⟩ := ih (n := n + 1 - chunk.length) (by omega)
            refine ⟨left, ?_, ?_⟩
            · rw [readExact, if_neg hfits, hread, List.flatten_cons, List.take_append,
                List.take_of_length_le hlength]
              rfl
            · rw [hleft, List.flatten_cons, List.drop_append, List.drop_eq_nil_of_le hlength,
                List.nil_append]

theorem readExact_of_lt {n : Nat} {chunks : Chunks} (hn : chunks.flatten.length < n) :
    readExact n chunks = .error .unexpectedEof := by
  induction chunks generalizing n with
  | nil =>
      obtain ⟨n, rfl⟩ := Nat.exists_eq_succ_of_ne_zero (Nat.ne_of_gt hn)
      rfl
  | cons chunk rest ih =>
      rw [List.flatten_cons, List.length_append] at hn
      obtain ⟨n, rfl⟩ : ∃ k, n = k + 1 := ⟨n - 1, by omega⟩
      rw [readExact, if_neg (by omega), ih (by omega)]
      rfl

/-! ## Reading frames -/

theorem readFrame_of_short {chunks : Chunks} (hshort : chunks.flatten.length < 4) :
    readFrame chunks = .error .unexpectedEof := by
  simp [readFrame, readExact_of_lt hshort, bind, Except.bind]

/-- Once the length has arrived, it decides. -/
theorem readFrame_of_header {chunks : Chunks} (hheader : 4 ≤ chunks.flatten.length) :
    ∃ rest : Chunks, rest.flatten = chunks.flatten.drop 4 ∧ readFrame chunks =
      if maxFrame < fromBeBytes (chunks.flatten.take 4) then .error .tooLarge
      else readExact (fromBeBytes (chunks.flatten.take 4)) rest := by
  obtain ⟨rest, hread, hrest⟩ := readExact_of_le hheader
  refine ⟨rest, hrest, ?_⟩
  simp only [readFrame, hread, bind, Except.bind]

theorem readFrame_of_tooLarge {chunks : Chunks} (hheader : 4 ≤ chunks.flatten.length)
    (hlarge : maxFrame < fromBeBytes (chunks.flatten.take 4)) :
    readFrame chunks = .error .tooLarge := by
  obtain ⟨rest, -, hframe⟩ := readFrame_of_header hheader
  rw [hframe, if_pos hlarge]

theorem readFrame_of_cutOff {chunks : Chunks}
    (hmax : fromBeBytes (chunks.flatten.take 4) ≤ maxFrame)
    (hshort : chunks.flatten.length < 4 + fromBeBytes (chunks.flatten.take 4)) :
    readFrame chunks = .error .unexpectedEof := by
  by_cases hheader : 4 ≤ chunks.flatten.length
  · obtain ⟨rest, hrest, hframe⟩ := readFrame_of_header hheader
    have hbody : rest.flatten.length < fromBeBytes (chunks.flatten.take 4) := by
      rw [hrest, List.length_drop]
      omega
    rw [hframe, if_neg (Nat.not_lt.mpr hmax), readExact_of_lt hbody]
  · exact readFrame_of_short (Nat.not_le.mp hheader)

/-- A short enough frame is read back, and the bytes after it stay on the stream. -/
theorem readFrame_writeFrame {chunks : Chunks} {frame left : List UInt8}
    (hmax : frame.length ≤ maxFrame) (hstream : chunks.flatten = writeFrame frame ++ left) :
    ∃ rest, readFrame chunks = .ok (frame, rest) ∧ rest.flatten = left := by
  have hsmall : frame.length < 2 ^ 32 := lt_of_le_maxFrame hmax
  have hheader : 4 ≤ chunks.flatten.length := by
    simp only [hstream, List.length_append, length_writeFrame]
    omega
  have hlen : fromBeBytes (chunks.flatten.take 4) = frame.length := by
    rw [hstream, List.take_append_of_le_length (by simp), take_writeFrame,
      Nat.mod_eq_of_lt hsmall, fromBeBytes_toBeBytes32 hsmall]
  obtain ⟨body, hbody, hframe⟩ := readFrame_of_header hheader
  have hbodyBytes : body.flatten = frame ++ left := by
    rw [hbody, hstream, List.drop_append_of_le_length (by simp), drop_writeFrame]
  obtain ⟨rest, hread, hrest⟩ : ∃ rest, readExact frame.length body =
      .ok (body.flatten.take frame.length, rest) ∧
        rest.flatten = body.flatten.drop frame.length :=
    readExact_of_le (by simp [hbodyBytes])
  refine ⟨rest, ?_, ?_⟩
  · rw [hframe, hlen, if_neg (Nat.not_lt.mpr hmax), hread, hbodyBytes, List.take_left]
  · rw [hrest, hbodyBytes, List.drop_left]

/-- A length and at least as many bytes are a written frame. -/
theorem exists_eq_writeFrame_append {bytes : List UInt8}
    (hmax : fromBeBytes (bytes.take 4) ≤ maxFrame)
    (hlong : 4 + fromBeBytes (bytes.take 4) ≤ bytes.length) :
    ∃ frame left, frame.length ≤ maxFrame ∧ bytes = writeFrame frame ++ left := by
  generalize hn : fromBeBytes (bytes.take 4) = n at hmax hlong
  have hlength : ((bytes.drop 4).take n).length = n :=
    List.length_take_of_le (by rw [List.length_drop]; omega)
  refine ⟨(bytes.drop 4).take n, (bytes.drop 4).drop n, by omega, ?_⟩
  have hwritten : toBeBytes32 n = bytes.take 4 := by
    rw [← hn]
    exact toBeBytes32_fromBeBytes (List.length_take_of_le (by omega))
  rw [writeFrame, hlength, Nat.mod_eq_of_lt (lt_of_le_maxFrame hmax), hwritten,
    List.append_assoc, List.take_append_drop, List.take_append_drop]

/-- What is read as a frame was written as one. -/
theorem eq_writeFrame_of_readFrame {chunks rest : Chunks} {frame : List UInt8}
    (hread : readFrame chunks = .ok (frame, rest)) :
    frame.length ≤ maxFrame ∧ chunks.flatten = writeFrame frame ++ rest.flatten := by
  have hheader : 4 ≤ chunks.flatten.length := by
    by_contra hshort
    rw [readFrame_of_short (Nat.not_le.mp hshort)] at hread
    cases hread
  have hmax : fromBeBytes (chunks.flatten.take 4) ≤ maxFrame := by
    by_contra hlarge
    rw [readFrame_of_tooLarge hheader (Nat.not_le.mp hlarge)] at hread
    cases hread
  have hlong : 4 + fromBeBytes (chunks.flatten.take 4) ≤ chunks.flatten.length := by
    by_contra hshort
    rw [readFrame_of_cutOff hmax (Nat.not_le.mp hshort)] at hread
    cases hread
  obtain ⟨written, left, hwritten, hstream⟩ := exists_eq_writeFrame_append hmax hlong
  obtain ⟨rest', hread', hleft⟩ := readFrame_writeFrame hwritten hstream
  obtain ⟨rfl, rfl⟩ : written = frame ∧ rest' = rest := by
    simpa [hread] using hread'.symm
  exact ⟨hwritten, by rw [hstream, hleft]⟩

/-- The frames that are read are those that were written and are short enough. How
the stream was split into pieces does not matter. -/
theorem readFrame_eq_ok_iff {chunks : Chunks} {frame left : List UInt8} :
    (∃ rest, readFrame chunks = .ok (frame, rest) ∧ rest.flatten = left) ↔
      frame.length ≤ maxFrame ∧ chunks.flatten = writeFrame frame ++ left := by
  constructor
  · rintro ⟨rest, hread, rfl⟩
    exact eq_writeFrame_of_readFrame hread
  · rintro ⟨hmax, hstream⟩
    exact readFrame_writeFrame hmax hstream

/-- A stream begins with at most one frame. -/
theorem writeFrame_append_inj {frame frame' left left' : List UInt8}
    (hmax : frame.length ≤ maxFrame) (hmax' : frame'.length ≤ maxFrame)
    (heq : writeFrame frame ++ left = writeFrame frame' ++ left') :
    frame = frame' ∧ left = left' := by
  have hstream : ([writeFrame frame ++ left] : Chunks).flatten = writeFrame frame ++ left :=
    List.flatten_singleton
  obtain ⟨rest, hread, hrest⟩ := readFrame_writeFrame hmax hstream
  obtain ⟨rest', hread', hrest'⟩ := readFrame_writeFrame hmax' (hstream.trans heq)
  obtain ⟨hframe, hsame⟩ : frame = frame' ∧ rest = rest' := by
    simpa [hread] using hread'
  exact ⟨hframe, by rw [← hrest, hsame, hrest']⟩

/-- A frame read from the bytes of a longer write is an initial part of what was
written. It is all of it unless the length did not fit in 32 bits. -/
theorem writeFrame_eq_append {bytes frame left : List UInt8} (hmax : frame.length ≤ maxFrame)
    (hwritten : writeFrame bytes = writeFrame frame ++ left) :
    bytes = frame ++ left ∧ (bytes.length < 2 ^ 32 → left = []) := by
  have hbytes : bytes = frame ++ left := by
    have hdrop := congrArg (List.drop 4) hwritten
    rwa [drop_writeFrame, List.drop_append_of_le_length (by simp), drop_writeFrame] at hdrop
  refine ⟨hbytes, fun hsmall => ?_⟩
  have htake := congrArg (List.take 4) hwritten
  rw [take_writeFrame, List.take_append_of_le_length (by simp), take_writeFrame,
    Nat.mod_eq_of_lt hsmall, Nat.mod_eq_of_lt (lt_of_le_maxFrame hmax)] at htake
  have hlength : bytes.length = frame.length := by
    rw [← fromBeBytes_toBeBytes32 hsmall, htake,
      fromBeBytes_toBeBytes32 (lt_of_le_maxFrame hmax)]
  simpa [hbytes] using hlength

end PgReplica
