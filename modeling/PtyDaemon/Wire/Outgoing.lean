import PtyDaemon.Framework.Output
import PtyDaemon.Wire.Occurrences
import PtyDaemon.Wire.Sends

/-!
# The bytes the daemon writes

The frames of the daemon go out through `write_all`, which may fail after any part of a frame, as it
does when the time limit of a takeover or a release runs out. The connection stays in use. Where
nothing is written to it any more, it has got whole frames and perhaps the beginning of a last one.
-/

namespace PtyDaemon

open Output

/-- `encode_message`, by the JSON text of the frame. -/
def encodeFrame (json : Frame → List UInt8) (frame : Frame) : List UInt8 :=
  encodeMessage (json frame)

private theorem encodeFrame_pos (json : Frame → List UInt8) (frame : Frame) :
    0 < (encodeFrame json frame).length := by
  rw [encodeFrame, encodeMessage_length]
  exact Nat.lt_of_lt_of_le (by decide) (Nat.le_add_right 4 _)

/-- The frame and what of it went out. -/
def wrote (json : Frame → List UInt8) (frame : Frame) (put : Option Nat) : Write Frame :=
  ⟨frame, put.getD (encodeFrame json frame).length⟩

namespace Server

section Addressee

/-- The connection that has the session. -/
def ownerConn (σ : Server) (id : Uuid) : Option Nat :=
  (σ.sessions.lookup id).bind fun s => if s.isAttached then s.ownerFd.bind σ.connOf else none

/-- The connection to which a release offers the session. -/
def previousConn (env : Env) (σ : Server) (id : Uuid) : Option Nat :=
  (σ.sessions.lookup id).bind fun s =>
    if env.dup.isSome then s.previousOwnerFd.bind σ.connOf else none

/-- A takeover writes to the owner of the session, a release to its previous owner. -/
def commandAddressee (env : Env) (σ : Server) : WsCommand → Option Nat
  | .request _ (.attach id) _ => σ.ownerConn id
  | .request _ (.detach id _ _ _) _ =>
    (σ.sessions.lookup id).bind fun s =>
      if s.isAttached then if s.inCooldown env.now then none else σ.ownerConn id
      else σ.previousConn env id
  | .disconnected c =>
    (σ.wsShared.clientSessions.lookup c).bind fun id =>
      (σ.sessions.lookup id).bind fun s =>
        if s.wsClientGone.wsClientCount = 0 then σ.previousConn env id else none
  | _ => none

/-- Whom an event writes to. -/
def addressee (σ : Server) : Event → Option Nat
  | .command shared cmd env => { σ with wsShared := shared }.commandAddressee env cmd
  | .request fd _ _ _ => σ.connOf fd
  | _ => none

variable {J : Codec} {env : Env} {σ σ' : Server} {id : Uuid} {e : Event}

private theorem takeoverPush_conn (σ : Server) (id : Uuid) :
    (σ.takeoverPush id).map Prod.fst = σ.ownerConn id := by
  unfold takeoverPush ownerConn
  cases hs : σ.sessions.lookup id with
  | none => rfl
  | some s =>
    by_cases hatt : s.state = .attached
    · have hattached : s.isAttached = true := decide_eq_true hatt
      cases howner : s.ownerFd with
      | none => simp [hatt, hattached, howner]
      | some fd => simp [hatt, hattached, howner, connOf, Function.comp_def]
    · have hfree : s.isAttached = false := decide_eq_false hatt
      simp [hatt, hfree]

private theorem releasePush_conn (env : Env) (σ : Server) (id : Uuid) :
    (σ.releasePush env id).map Prod.fst = σ.previousConn env id := by
  unfold releasePush previousConn
  cases hs : σ.sessions.lookup id with
  | none => rfl
  | some s =>
    cases hprevious : s.previousOwnerFd with
    | none => simp [hprevious]
    | some fd =>
      cases hclient : σ.clients.lookup fd with
      | none => simp [hprevious, connOf, hclient]
      | some client =>
        cases hdup : env.dup with
        | none => simp
        | some d => simp [hprevious, connOf, hclient]

private theorem commandPush_conn (env : Env) (σ : Server) (cmd : WsCommand) :
    (σ.commandPush env cmd).map Prod.fst = σ.commandAddressee env cmd := by
  cases cmd with
  | input => rfl
  | disconnected c =>
    simp only [commandPush, commandAddressee]
    cases hc : σ.wsShared.clientSessions.lookup c with
    | none => rfl
    | some id =>
      simp only [Option.bind_some]
      cases hs : σ.sessions.lookup id with
      | none => rfl
      | some s =>
        simp only [Option.bind_some]
        split
        · exact releasePush_conn env σ id
        · rfl
  | request c request reply =>
    cases request with
    | attach id => exact takeoverPush_conn σ id
    | detach id cols rows snapshot =>
      simp only [commandPush, commandAddressee]
      cases hs : σ.sessions.lookup id with
      | none => rfl
      | some s =>
        simp only [Option.bind_some]
        split
        · split
          · rfl
          · exact takeoverPush_conn σ id
        · exact releasePush_conn env σ id
    | _ => rfl

/-- An event writes to its addressee, and one that has none writes nothing. -/
theorem attempts_conn (h : σ.event J e = .ok σ') :
    (σ.attempts J e).map Prod.fst = σ.addressee e := by
  cases e with
  | command shared cmd env => exact commandPush_conn env { σ with wsShared := shared } cmd
  | request fd result consumed env =>
    cases event_runs h with
    | request hclient _ h =>
      obtain ⟨conn, hconn⟩ := Option.isSome_iff_exists.mp hclient
      rw [serve_eq] at h
      obtain ⟨p, hp, _⟩ := ok_of_map h
      simp [attempts, addressee, hconn, hp, Except.toOption]
  | _ => rfl

end Addressee

variable (json : Frame → List UInt8)

/-- The writes to a connection. -/
def writesOn (c : Nat) (σ : Server) : List (Write Frame) :=
  σ.sends.filterMap fun p => if p.1 = c then some (wrote json p.2.1 p.2.2) else none

/-- A write to the connection has stopped inside its frame. -/
def Torn (σ : Server) (c : Nat) : Prop := ∃ w ∈ writesOn json c σ, w.Torn (encodeFrame json)

instance (σ : Server) (c : Nat) : Decidable (Torn json σ c) :=
  inferInstanceAs (Decidable (∃ w ∈ writesOn json c σ, w.Torn (encodeFrame json)))

/-- Nobody is written to whose last frame has been torn, unless the socket takes nothing. -/
def SparesTorn (σ : Server) : Occurrence → Prop
  | .event e => e.put ≠ some 0 → ∀ c ∈ σ.addressee e, ¬ Torn json σ c
  | _ => True

instance (σ : Server) (m : Occurrence) : Decidable (SparesTorn json σ m) :=
  match m with
  | .event e => inferInstanceAs (Decidable (e.put ≠ some 0 → ∀ c ∈ σ.addressee e, ¬ Torn json σ c))
  | .receive _ _ => isTrue trivial
  | .tick _ _ => isTrue trivial

variable {json} {J : Codec} {σ σ' : Server} {m : Occurrence} {e : Event}

/-- What an event adds to the writes on a connection. -/
theorem writesOn_event (h : σ.event J e = .ok σ') (c : Nat) :
    σ.addressee e ≠ some c ∧ writesOn json c σ' = writesOn json c σ ∨
      σ.addressee e = some c ∧
        ∃ frame, writesOn json c σ' = wrote json frame e.put :: writesOn json c σ := by
  have hconn := attempts_conn h
  rw [writesOn, event_sends h, List.filterMap_append, ← hconn]
  cases hattempt : σ.attempts J e with
  | none => exact .inl ⟨by simp, rfl⟩
  | some p =>
    by_cases hc : p.1 = c
    · exact .inr ⟨congrArg some hc, p.2, by simp [sending, hc, writesOn]⟩
    · exact .inl ⟨by simp [hc], by simp [sending, hc, writesOn]⟩

/-- Between two events nothing is written. -/
theorem writesOn_aside (h : σ.occur J m = some σ') (hother : ∀ e, m ≠ .event e) (c : Nat) :
    writesOn json c σ' = writesOn json c σ := by
  rcases occur_cases h with ⟨e, he, _⟩ | ⟨_, _, _, htrace⟩
  · exact absurd he (hother e)
  · rw [writesOn, sends, htrace]
    rfl

private theorem wrote_pos (json : Frame → List UInt8) (frame : Frame) (put : Option Nat) :
    0 < (wrote json frame put).put ↔ put ≠ some 0 := by
  cases put with
  | none => simpa [wrote] using encodeFrame_pos json frame
  | some n => simp [wrote, Nat.pos_iff_ne_zero]

/-- A step leaves every history unbroken just if it found it so and spares the torn ones. -/
theorem unbroken_step (h : σ.occur J m = some σ') :
    (∀ c, Unbroken (encodeFrame json) (writesOn json c σ')) ↔
      (∀ c, Unbroken (encodeFrame json) (writesOn json c σ)) ∧ SparesTorn json σ m := by
  have hother : (∀ e, m ≠ .event e) → ((∀ c, Unbroken (encodeFrame json) (writesOn json c σ')) ↔
      (∀ c, Unbroken (encodeFrame json) (writesOn json c σ)) ∧ True) := by
    intro hm
    simp only [writesOn_aside h hm, and_true]
  cases m with
  | receive fd bytes => exact hother fun _ he => by cases he
  | tick running idleSince => exact hother fun _ he => by cases he
  | event e =>
    have hevent : σ.event J e = .ok σ' := ok_of_toOption h
    constructor
    · intro hafter
      refine ⟨fun c => ?_, fun hput c hc htorn => ?_⟩
      · have hc := hafter c
        rcases writesOn_event hevent c with ⟨_, hsame⟩ | ⟨_, frame, hnew⟩
        · rwa [hsame] at hc
        · rw [hnew] at hc
          exact hc.1
      · obtain ⟨w, hw, htorn⟩ := htorn
        rcases writesOn_event hevent c with ⟨hnot, _⟩ | ⟨_, frame, hnew⟩
        · exact hnot hc
        · have hunbroken := hafter c
          rw [hnew] at hunbroken
          exact hunbroken.2 ((wrote_pos json frame e.put).mpr hput) w hw htorn
    · rintro ⟨hbefore, hspares⟩ c
      rcases writesOn_event hevent c with ⟨_, hsame⟩ | ⟨hc, frame, hnew⟩
      · rw [hsame]
        exact hbefore c
      · rw [hnew]
        refine ⟨hbefore c, fun hpos w hw htorn => ?_⟩
        exact hspares ((wrote_pos json frame e.put).mp hpos) c hc ⟨w, hw, htorn⟩

/-- In a run every connection has got whole frames and perhaps the beginning of a last one exactly
where nobody has been served, displaced or offered a session after a write to it has stopped inside
its frame. -/
theorem frames_whole_iff (h : (occurrences J).Reachable σ) :
    (∀ c, Whole (encodeFrame json) (writesOn json c σ)) ↔
      (occurrences J).Reach (SparesTorn json) σ := by
  simp only [whole_iff]
  constructor
  · intro hunbroken
    induction h with
    | start hinit => exact .start hinit
    | next _ _ hstep ih =>
      obtain ⟨hbefore, hspares⟩ := (unbroken_step hstep).mp hunbroken
      exact (ih hbefore).next hspares hstep
  · intro hguarded
    apply hguarded.invariant
    · rintro _ ⟨listener, wakeup, now, rfl⟩ c
      trivial
    · intro σ m σ' hunbroken hspares hstep
      exact (unbroken_step hstep).mpr ⟨hunbroken, hspares⟩

/-! ## What a client decodes -/

/-- The beginning of a frame holds no frame. -/
theorem nextFrame_truncated {text tail : List UInt8} (htext : text.length < 2 ^ 32)
    (hbegins : tail <+: encodeMessage text) (hlt : tail.length < (encodeMessage text).length) :
    nextFrame tail = none := by
  cases hframe : nextFrame tail with
  | none => rfl
  | some p =>
    obtain ⟨later, hlater⟩ := hbegins
    have hwhole := frames.stable later hframe
    have hbound := frames.bound hframe
    have hfirst := nextFrame_encode htext []
    rw [List.append_nil, ← hlater] at hfirst
    cases hwhole.symm.trans hfirst
    rw [encodeMessage_length] at hlt
    exact absurd hbound (Nat.not_le_of_lt hlt)

/-- A client that has got whole frames decodes what the daemon has encoded. -/
theorem payloads_whole (hjson : ∀ frame, (json frame).length < 2 ^ 32) {log : List (Write Frame)}
    (h : Whole (encodeFrame json) log) :
    ∃ fs : List Frame, payloads (stream (encodeFrame json) log) = fs.map json := by
  obtain ⟨fs, tail, hstream, htail⟩ := h.bytes
  have hnone : nextFrame tail = none := by
    rcases htail with rfl | ⟨frame, hbegins, hlt⟩
    · rfl
    · exact nextFrame_truncated (hjson frame) hbegins hlt
  have htexts : ∀ text ∈ fs.map json, text.length < 2 ^ 32 := by
    intro text htext
    obtain ⟨frame, _, rfl⟩ := List.mem_map.mp htext
    exact hjson frame
  have hframes := (frames_encode htexts tail).1
  rw [(frames_stuck hnone).1, List.append_nil, List.flatMap_map] at hframes
  refine ⟨fs, ?_⟩
  rw [payloads, hstream]
  have hencode : fs.flatMap (encodeFrame json) = fs.flatMap fun frame =>
      encodeMessage (json frame) := rfl
  rw [hencode, hframes]
  simp [List.map_map, Function.comp_def]

/-! ## Two runs -/

/-- Texts short enough to follow by hand. -/
private def shortText : Frame → List UInt8
  | .response _ => [1, 2]
  | .push _ => [3]
  | .fd _ => []

/-- A client owns session 7, is displaced by a WebSocket client and asks for the list; five bytes of
the answer go out before the time limit. -/
private def cutOff : List Occurrence :=
  [.event (.accept 5),
    .event (.request 5 (.ok (.create none 80 24 none none none)) 0 calm),
    .event (.request 5 (.ok (.attach 7)) 0 calmLater),
    .event (.command .new (.request 1 (.attach 7) 1) calmLater),
    .event (.request 5 (.ok .list) 0 { calmLater with responseWritten := false, cut := 5 })]

private theorem start_occurrences (J : Codec) : (occurrences J).init (new 3 none 0) :=
  ⟨3, none, 0, rfl⟩

/-- The client closes the connection on which its answer was cut off. -/
theorem frames_whole_iff_closed :
    ∃ σ, (occurrences acking).Reachable σ ∧
      (∀ c, Whole (encodeFrame shortText) (writesOn shortText c σ)) ∧
      stream (encodeFrame shortText) (writesOn shortText 0 σ) =
        [0, 0, 0, 2, 1, 2, 0, 0, 0, 2, 1, 2, 0, 0, 0, 1, 3, 0, 0, 0, 2, 1] := by
  have hrun : ((occurrences acking).execWhere (SparesTorn shortText) (new 3 none 0)
      (cutOff ++ [.event (.disconnect 5)])).map (fun σ =>
        stream (encodeFrame shortText) (writesOn shortText 0 σ)) =
      some [0, 0, 0, 2, 1, 2, 0, 0, 0, 2, 1, 2, 0, 0, 0, 1, 3, 0, 0, 0, 2, 1] := by
    decide +kernel
  obtain ⟨σ, hexec, hstream⟩ := Option.map_eq_some_iff.mp hrun
  have hstart := start_occurrences acking
  have hreach := (Transition.System.Reach.start hstart).execWhere hexec
  exact ⟨σ, hreach.reachable, (frames_whole_iff hreach.reachable).mpr hreach, hstream⟩

/-- The client asks once more: the next answer goes out behind the five bytes, and the client takes
the first of its bytes for the end of the answer that was cut off. -/
theorem frame_continued :
    ∃ σ, (occurrences acking).Reachable σ ∧
      payloads (stream (encodeFrame shortText) (writesOn shortText 0 σ)) =
        [[1, 2], [1, 2], [3], [1, 0]] ∧
      ¬ Whole (encodeFrame shortText) (writesOn shortText 0 σ) := by
  have hrun : ((occurrences acking).exec (new 3 none 0)
      (cutOff ++ [.event (.request 5 (.ok .list) 0 calmLater)])).map (fun σ =>
        payloads (stream (encodeFrame shortText) (writesOn shortText 0 σ))) =
      some [[1, 2], [1, 2], [3], [1, 0]] := by decide +kernel
  obtain ⟨σ, hexec, hpayloads⟩ := Option.map_eq_some_iff.mp hrun
  have hstart : (occurrences acking).Reachable (new 3 none 0) := .start (start_occurrences acking)
  refine ⟨σ, hstart.exec hexec, hpayloads, fun hwhole => ?_⟩
  have hshort : ∀ frame, (shortText frame).length < 2 ^ 32 := by
    intro frame
    cases frame <;> simp [shortText]
  obtain ⟨fs, hfs⟩ := payloads_whole hshort hwhole
  have hlast : [1, 0] ∈ fs.map shortText := by
    rw [← hfs, hpayloads]
    decide
  obtain ⟨frame, _, hframe⟩ := List.mem_map.mp hlast
  cases frame <;> simp [shortText] at hframe

end Server

end PtyDaemon
