import PtyDaemon.Wire.Decoding

/-!
# What a subcommand reads

`send_request` writes its frame and reads until one complete frame has come, which it takes for the
response. What it has read behind that frame is lost, and so is a push in its place.
-/

namespace PtyDaemon

/-- One `read` of the control socket; no bytes are the end of the stream. -/
abbrev StreamRead := Except String (List UInt8)

/-- The loop of `send_request` with what is in its buffer, and the reads it has left; `none`: it
waits for more. -/
def readResponse (T : Serde) :
    List UInt8 → List StreamRead → Option (Except String Response × List StreamRead)
  | _, [] => none
  | _, .error e :: reads => some (.error e, reads)
  | _, .ok [] :: reads => some (.error "daemon closed connection", reads)
  | buf, .ok (b :: bytes) :: reads =>
    match tryDecodeMessage (T.readResponse) (buf ++ b :: bytes) with
    | some (result, _) => some (result, reads)
    | none => readResponse T (buf ++ b :: bytes) reads

variable {T : Serde}

private theorem readResponse_more {buf bytes : List UInt8} (hbytes : bytes ≠ [])
    (hframe : nextFrame (buf ++ bytes) = none) (reads : List StreamRead) :
    readResponse T buf (.ok bytes :: reads) = readResponse T (buf ++ bytes) reads := by
  obtain ⟨b, bs, rfl⟩ := List.exists_cons_of_ne_nil hbytes
  rw [readResponse, tryDecodeMessage_none.mpr hframe]

private theorem readResponse_frame {buf bytes : List UInt8} (hbytes : bytes ≠ [])
    {p : List UInt8 × Nat}
    (hframe : nextFrame (buf ++ bytes) = some p) (reads : List StreamRead) :
    readResponse T buf (.ok bytes :: reads) =
      some (T.readResponse p.1, reads) := by
  obtain ⟨b, bs, rfl⟩ := List.exists_cons_of_ne_nil hbytes
  rw [readResponse, tryDecodeMessage_eq, hframe]
  rfl

/-- The frame is complete with some piece, and only then. -/
theorem readResponse_pieces (T : Serde) {buf : List UInt8}
    {pieces : List (List UInt8)} {p : List UInt8 × Nat}
    (hpieces : ∀ piece ∈ pieces, piece ≠ []) (hbuf : nextFrame buf = none)
    (hframe : nextFrame (buf ++ pieces.flatten) = some p) (reads : List StreamRead) :
    ∃ used piece unread, pieces = used ++ piece :: unread ∧
      nextFrame (buf ++ used.flatten) = none ∧
      nextFrame (buf ++ used.flatten ++ piece) = some p ∧
      readResponse T buf (pieces.map .ok ++ reads) =
        some (T.readResponse p.1, unread.map .ok ++ reads) := by
  induction pieces generalizing buf with
  | nil =>
    rw [List.flatten_nil, List.append_nil, hbuf] at hframe
    cases hframe
  | cons piece pieces ih =>
    have hpiece := hpieces piece List.mem_cons_self
    cases hnext : nextFrame (buf ++ piece) with
    | some q =>
      have hstable := frames.stable pieces.flatten hnext
      rw [List.append_assoc] at hstable
      cases hstable.symm.trans hframe
      refine ⟨[], piece, pieces, rfl, ?_, ?_, ?_⟩
      · rw [List.flatten_nil, List.append_nil]
        exact hbuf
      · rw [List.flatten_nil, List.append_nil]
        exact hnext
      · exact readResponse_frame hpiece hnext _
    | none =>
      rw [List.flatten_cons, ← List.append_assoc] at hframe
      obtain ⟨used, last, unread, rfl, hnone, hwhole, hread⟩ :=
        ih (fun q hq => hpieces q (List.mem_cons_of_mem piece hq)) hnext hframe
      refine ⟨piece :: used, last, unread, rfl, ?_, ?_, ?_⟩
      · rw [List.flatten_cons, ← List.append_assoc]
        exact hnone
      · rw [List.flatten_cons, ← List.append_assoc]
        exact hwhole
      · exact (readResponse_more hpiece hnext _).trans hread

/-- While the frame is not complete the loop reads on. -/
theorem readResponse_waits (T : Serde) {buf : List UInt8}
    {pieces : List (List UInt8)}
    (hpieces : ∀ piece ∈ pieces, piece ≠ []) (hframe : nextFrame (buf ++ pieces.flatten) = none)
    (reads : List StreamRead) :
    readResponse T buf (pieces.map .ok ++ reads) =
      readResponse T (buf ++ pieces.flatten) reads := by
  induction pieces generalizing buf with
  | nil => rw [List.flatten_nil, List.append_nil]; rfl
  | cons piece pieces ih =>
    rw [List.flatten_cons, ← List.append_assoc] at hframe ⊢
    have hnext : nextFrame (buf ++ piece) = none := by
      cases hsome : nextFrame (buf ++ piece) with
      | none => rfl
      | some p => cases (frames.stable pieces.flatten hsome).symm.trans hframe
    have hread := ih (fun q hq => hpieces q (List.mem_cons_of_mem piece hq)) hframe
    exact (readResponse_more (hpieces piece List.mem_cons_self) hnext _).trans hread

/-- A part of a frame that is not all of it is no frame. -/
theorem nextFrame_part {json part rest : List UInt8} (h : json.length < 2 ^ 32)
    (hpart : part ++ rest = encodeMessage json) (hrest : rest ≠ []) : nextFrame part = none := by
  cases hframe : nextFrame part with
  | none => rfl
  | some p =>
    have hstable := frames.stable rest hframe
    have hwhole := nextFrame_encode h []
    rw [List.append_nil, ← hpart] at hwhole
    cases hstable.symm.trans hwhole
    have hbound := frames.bound hframe
    have hlength := congrArg List.length hpart
    rw [encodeMessage_length, List.length_append] at hlength
    have hpos := List.length_pos_iff.mpr hrest
    omega

/-- Bytes of a stream in which no frame is complete are a part of its first frame. -/
theorem length_of_nextFrame_none {json part rest more : List UInt8} (h : json.length < 2 ^ 32)
    (hstream : part ++ rest = encodeMessage json ++ more) (hnone : nextFrame part = none) :
    part.length < (encodeMessage json).length := by
  apply Nat.lt_of_not_le
  intro hle
  have htake : part = encodeMessage json ++ part.drop (encodeMessage json).length := by
    have hprefix := congrArg (List.take (encodeMessage json).length) hstream
    rw [List.take_append_of_le_length hle, List.take_left] at hprefix
    rw [← hprefix, List.length_take, Nat.min_eq_left hle, List.take_append_drop]
  have hframe := nextFrame_encode h (part.drop (encodeMessage json).length)
  rw [← htake, hnone] at hframe
  cases hframe

/-- However the stream of the daemon is cut, `send_request` returns the response at its front, with
the read that completes it; a push at its front makes it fail; and where the stream ends inside the
first frame, it waits, or returns the error that ends it. -/
theorem response_received (T : Serde) {pieces : List (List UInt8)}
    (hpieces : ∀ piece ∈ pieces, piece ≠ []) (reads : List StreamRead) :
    (∀ (r : Response) (more : List UInt8), T.ReturnsBack r → (T.response r).length < 2 ^ 32 →
      pieces.flatten = encodeMessage (T.response r) ++ more →
      ∃ used piece unread, pieces = used ++ piece :: unread ∧
        used.flatten.length < (encodeMessage (T.response r)).length ∧
        readResponse T [] (pieces.map .ok ++ reads) =
          some (.ok (r.sent T.snapshots), unread.map .ok ++ reads)) ∧
    (∀ (p : Push) (more : List UInt8), T.RefusesPush p → (T.push p).length < 2 ^ 32 →
      pieces.flatten = encodeMessage (T.push p) ++ more →
      ∃ e unread, T.readResponse (T.push p) = .error e ∧
        readResponse T [] (pieces.map .ok ++ reads) = some (.error e, unread)) ∧
    ∀ json rest : List UInt8, json.length < 2 ^ 32 → rest ≠ [] →
      pieces.flatten ++ rest = encodeMessage json →
      readResponse T [] (pieces.map .ok) = none ∧
        (∀ e, readResponse T [] (pieces.map .ok ++ .error e :: reads) = some (.error e, reads)) ∧
        readResponse T [] (pieces.map .ok ++ .ok [] :: reads) =
          some (.error "daemon closed connection", reads) := by
  have hnil : nextFrame [] = none := rfl
  refine ⟨?_, ?_, ?_⟩
  · intro r more hreturns hshort hstream
    obtain ⟨used, piece, unread, hsplit, hnone, _, hread⟩ := readResponse_pieces T
      hpieces hnil (hstream ▸ nextFrame_encode hshort more) reads
    refine ⟨used, piece, unread, hsplit, ?_, ?_⟩
    · apply length_of_nextFrame_none hshort _ hnone
      · exact (piece :: unread).flatten
      · exact more
      · rw [← hstream, hsplit, List.flatten_append, List.nil_append]
    · rw [hread, hreturns]
  · intro p more hrefuses hshort hstream
    obtain ⟨e, he⟩ := hrefuses
    obtain ⟨used, piece, unread, _, _, _, hread⟩ := readResponse_pieces T hpieces hnil
      (hstream ▸ nextFrame_encode hshort more) reads
    exact ⟨e, _, he, hread.trans (by rw [he])⟩
  · intro json rest hshort hrest hstream
    have hpart := nextFrame_part hshort hstream hrest
    have hwaits := @readResponse_waits T [] pieces hpieces hpart
    refine ⟨?_, ?_, ?_⟩
    · have hnone := hwaits []
      rw [List.append_nil] at hnone
      rw [hnone, readResponse]
    · intro e
      rw [hwaits, readResponse]
    · rw [hwaits, readResponse]

private def shuttingDownFrame : List UInt8 := encodeMessage (sampleTexts.response .shuttingDown)

/-- A response that comes in two pieces, with a byte behind it. -/
theorem response_received_cut :
    ∃ unread, readResponse sampleTexts []
        [.ok (shuttingDownFrame.take 3), .ok (shuttingDownFrame.drop 3 ++ [0])] =
      some (.ok .shuttingDown, unread) := by
  have hpieces : ∀ piece ∈ [shuttingDownFrame.take 3, shuttingDownFrame.drop 3 ++ [0]],
      piece ≠ [] := by decide +kernel
  have hstream : [shuttingDownFrame.take 3, shuttingDownFrame.drop 3 ++ [0]].flatten =
      shuttingDownFrame ++ [0] := by
    simp [← List.append_assoc]
  have hreturns : sampleTexts.ReturnsBack .shuttingDown := by
    unfold Serde.ReturnsBack
    decide +kernel
  obtain ⟨_, _, unread, _, _, hread⟩ := (response_received sampleTexts hpieces []).1
    .shuttingDown [0] hreturns (by decide +kernel) hstream
  exact ⟨_, hread⟩

end PtyDaemon
