import PtyDaemon.Server.Frame

/-!
# Is input delivered?

`handle_ws_input` writes until the PTY refuses and tells nobody how far it came, so the answer to
an input request does not depend on it.
-/

namespace PtyDaemon

/-- The bytes written to the PTY of `id`, in order. -/
def writtenTo (id : Uuid) (acts : List Act) : List UInt8 :=
  acts.flatMap fun
    | .ptyWrote i bytes => if i = id then bytes else []
    | _ => []

namespace Server

variable {J : Codec} {env : Env} {σ σ' : Server} {id : Uuid}

/-- How many bytes the PTY takes before a `write` takes none. -/
def room : List Int → Nat
  | [] => 0
  | n :: results => if n ≤ 0 then 0 else n.toNat + room results

/-- Whatever the single results are, what is written is the beginning of the data. -/
theorem writeLoop_eq_take (results : List Int) (data : List UInt8) :
    writeLoop results data = data.take (room results) := by
  induction results generalizing data with
  | nil => rfl
  | cons n results ih =>
    rw [writeLoop, room, ih]
    cases data with
    | nil => simp
    | cons b data =>
      by_cases hn : n ≤ 0
      · simp [hn]
      · simp only [List.isEmpty_cons, Bool.false_or, hn, decide_false, if_false,
          Bool.false_eq_true]
        rw [List.take_add]

theorem writeLoop_prefix (results : List Int) (data : List UInt8) :
    writeLoop results data <+: data := by
  rw [writeLoop_eq_take]
  exact List.take_prefix _ _

private theorem writeLoop_eq_self {results : List Int} {data : List UInt8} :
    writeLoop results data = data ↔ data.length ≤ room results := by
  rw [writeLoop_eq_take]
  exact List.take_eq_self_iff data

/-- All of `bytes` has gone to the PTY of the session, once. -/
def Delivered (id : Uuid) (bytes : List UInt8) (σ σ' : Server) : Prop :=
  (σ.sessions.lookup id).isSome = true ∧ writtenTo id (newActs σ σ') = bytes

private theorem handleWsInput_delivered {bytes : List UInt8} :
    Delivered id bytes σ (σ.handleWsInput env id bytes) ↔
      (σ.sessions.lookup id).isSome = true ∧ bytes.length ≤ room env.ptyWrites := by
  apply and_congr_right
  intro hsome
  obtain ⟨s, hs⟩ := Option.isSome_iff_exists.mp hsome
  have hacts : newActs σ (σ.emit (.ptyWrote id (writeLoop env.ptyWrites bytes))) =
      [.ptyWrote id (writeLoop env.ptyWrites bytes)] := @newActs_eq σ _ [_] rfl
  rw [handleWsInput, hs]
  simp [hacts, writtenTo, writeLoop_eq_self]

/-- An acknowledgement says that the input was delivered, an error that it was not. -/
structure AnswersFor (id : Uuid) (bytes : List UInt8) (σ σ' : Server) (response : Response) :
    Prop where
  acked : ∀ i, response = .inputAck i → i = id ∧ Delivered id bytes σ σ'
  refused : ¬ Delivered id bytes σ σ' → ∃ message, response = .error message

/-- The answer is right if and only if there is such a session and its PTY has room for all of the
input: the daemon acknowledges in any case. -/
theorem input_answersFor_iff (J : Codec) (env : Env) (σ : Server) (fd : RawFd) (id : Uuid)
    (data : String) (bytes : List UInt8) (hdata : J.base64 data = .ok bytes) :
    ∃ p, σ.handleRequest J env fd (.input id data) = .ok p ∧
      (AnswersFor id bytes σ p.1 p.2 ↔
        (σ.sessions.lookup id).isSome = true ∧ bytes.length ≤ room env.ptyWrites) := by
  have hanswer : σ.handleRequest J env fd (.input id data) =
      .ok (σ.handleWsInput env id bytes, .inputAck id) := by
    rw [handleRequest, handleRemoteInput, hdata]
  refine ⟨_, hanswer, ?_⟩
  rw [← handleWsInput_delivered]
  constructor
  · intro h
    exact (h.acked id rfl).2
  · intro h
    constructor
    · intro i hi
      cases hi
      exact ⟨rfl, h⟩
    · intro hnot
      exact absurd h hnot

/-- `aGk=` stands for two bytes. -/
private def greeting : Codec where
  request := fun _ => .ok (.create none 80 24 none none none)
  pushAck := fun _ => .error "unknown"
  base64 := fun text => if text = "aGk=" then .ok [0x68, 0x69] else .error "Invalid padding"

private theorem greeting_reachable :
    ∃ σ, (loop greeting).Reachable σ ∧ (σ.sessions.lookup 7).isSome = true := by
  have hrun : ((loop greeting).exec (Server.new 3 none 0)
      [readable 3 [.stream 5] [] [], readable 5 [] (encodeMessage []) [calm]]).map
      (fun σ => (σ.sessions.lookup 7).isSome) = some true := by decide +kernel
  obtain ⟨σ, hexec, hsome⟩ := Option.map_eq_some_iff.mp hrun
  have hstart : (loop greeting).Reachable (Server.new 3 none 0) := .start ⟨3, none, 0, rfl⟩
  exact ⟨σ, hstart.exec hexec, hsome⟩

/-- The PTY takes the two bytes one at a time. -/
theorem input_answersFor_iff_room :
    ∃ σ p, (loop greeting).Reachable σ ∧
      σ.handleRequest greeting { calm with ptyWrites := [1, 1] } 5 (.input 7 "aGk=") = .ok p ∧
      AnswersFor 7 [0x68, 0x69] σ p.1 p.2 := by
  obtain ⟨σ, hreach, hsome⟩ := greeting_reachable
  obtain ⟨p, hp, hiff⟩ := input_answersFor_iff greeting { calm with ptyWrites := [1, 1] } σ 5 7
    "aGk=" [0x68, 0x69] (by decide)
  exact ⟨σ, p, hreach, hp, hiff.mpr ⟨hsome, by decide⟩⟩

/-- The PTY takes one byte and then none, and the input is acknowledged. -/
theorem short_input_acked :
    ∃ σ p, (loop greeting).Reachable σ ∧
      σ.handleRequest greeting { calm with ptyWrites := [1, -1] } 5 (.input 7 "aGk=") = .ok p ∧
      p.2 = .inputAck 7 ∧ ¬ AnswersFor 7 [0x68, 0x69] σ p.1 p.2 := by
  obtain ⟨σ, hreach, _⟩ := greeting_reachable
  refine ⟨σ, (σ.handleWsInput { calm with ptyWrites := [1, -1] } 7 [0x68, 0x69], .inputAck 7),
    hreach, ?_, rfl, ?_⟩
  · have hdata : greeting.base64 "aGk=" = .ok [0x68, 0x69] := by decide
    rw [handleRequest, handleRemoteInput, hdata]
  · intro h
    have hroom := (handleWsInput_delivered.mp (h.acked 7 rfl).2).2
    revert hroom
    decide

end Server

end PtyDaemon
