import Mathlib.Logic.Function.Basic
import Mathlib.Tactic.Common
import PtyDaemon.Framework.Transition

/-!
# Daemons on one socket path

`Server::new` removes what it finds at the path and binds there; a daemon that ends removes what is
there once after its loop and once more when the `Server` is dropped. Nothing says whose socket it
is. Any number of daemons are started and end on one path, and their calls interleave in any way.
-/

namespace PtyDaemon

/-- Where a daemon stands with the path. -/
inductive PathStage
  | absent
  /-- in `Server::new`, before it looks whether there is a file -/
  | starting
  /-- it has found one -/
  | removing
  | binding
  /-- it listens, and has not set the permissions of the path -/
  | bound
  | running
  /-- so many more `remove_file`s are to come -/
  | leaving (removals : Nat)
  | gone
  deriving DecidableEq

/-- The daemon has its listener open. -/
def PathStage.listens : PathStage → Bool
  | .bound => true
  | .running => true
  | .leaving _ => true
  | _ => false

/-- It has bound the path or never will. -/
def PathStage.isPast : PathStage → Bool
  | .gone => true
  | stage => stage.listens

/-- What is past stays so, and nothing begins to listen. -/
def PathStage.Leads (stage stage' : PathStage) : Prop :=
  (stage.isPast = true → stage'.isPast = true) ∧ (stage'.listens = true → stage.listens = true)

attribute [local simp] PathStage.listens PathStage.isPast PathStage.Leads

private theorem PathStage.leads_gone (stage : PathStage) : stage.Leads .gone := by
  simp

structure SocketPath where
  /-- the daemon whose socket the path leads to -/
  file : Option Nat
  daemons : Nat → PathStage

namespace SocketPath

/-- The next call of a daemon. A loop that ends is followed by `cleanup` and the drop of the
`Server`, one that fails by the drop alone; a daemon that is killed does nothing more. -/
inductive Label
  | start (d : Nat)
  | exists (d : Nat)
  | remove (d : Nat)
  | bind (d : Nat)
  | setPermissions (d : Nat)
  | leaveLoop (d : Nat)
  | failInLoop (d : Nat)
  | cleanup (d : Nat)
  | close (d : Nat)
  | kill (d : Nat)

def moves (P : SocketPath) (d : Nat) (stage : PathStage) : SocketPath :=
  { P with daemons := Function.update P.daemons d stage }

def step (P : SocketPath) : Label → Option SocketPath
  | .start d => if P.daemons d = .absent then some (P.moves d .starting) else none
  | .exists d =>
    if P.daemons d = .starting then
      some (P.moves d (if P.file.isSome then .removing else .binding))
    else none
  | .remove d =>
    if P.daemons d = .removing then
      -- a file that is gone by now is an error
      match P.file with
      | some _ => some ({ P with file := none }.moves d .binding)
      | none => some (P.moves d .gone)
    else none
  | .bind d =>
    if P.daemons d = .binding then
      match P.file with
      | some _ => some (P.moves d .gone)
      | none => some ({ P with file := some d }.moves d .bound)
    else none
  | .setPermissions d =>
    if P.daemons d = .bound then
      some (P.moves d (if P.file.isSome then .running else .gone))
    else none
  | .leaveLoop d => if P.daemons d = .running then some (P.moves d (.leaving 2)) else none
  | .failInLoop d => if P.daemons d = .running then some (P.moves d (.leaving 1)) else none
  | .cleanup d =>
    match P.daemons d with
    | .leaving (n + 1) => some ({ P with file := none }.moves d (.leaving n))
    | _ => none
  | .close d => if P.daemons d = .leaving 0 then some (P.moves d .gone) else none
  | .kill d => if P.daemons d = .absent then none else some (P.moves d .gone)

/-- What happens to the file. -/
inductive Change
  | bound (d : Nat)
  | removed (d : Nat)
  deriving DecidableEq

def note (P : SocketPath) (label : Label) (_ : SocketPath) : List Change :=
  match label with
  | .remove d => if P.file.isSome then [.removed d] else []
  | .bind d => if P.file.isSome then [] else [.bound d]
  | .cleanup d => if P.file.isSome then [.removed d] else []
  | _ => []

def system : Transition.System SocketPath Label where
  init P := P = ⟨none, fun _ => .absent⟩
  step := step

/-- The runs with what has happened to the file, the newest first. -/
def recorded : Transition.System (Transition.Recorded SocketPath Change) Label := system.record note

/-- A client that connects comes to the daemon. -/
def Reached (P : SocketPath) (d : Nat) : Prop := P.file = some d ∧ (P.daemons d).listens = true

/-- What has happened to the file since the daemon bound it. -/
def since (d : Nat) (log : List Change) : List Change := log.takeWhile (· ≠ .bound d)

variable {x x' : Transition.Recorded SocketPath Change} {P P' : SocketPath} {d : Nat}

private theorem since_cons (d : Nat) (c : Change) (log : List Change) :
    since d (c :: log) = if c = .bound d then [] else c :: since d log := by
  rw [since, since, List.takeWhile_cons]
  by_cases h : c = .bound d <;> simp [h]

/-- Nothing has happened since the daemon bound the path when that was the last thing. -/
theorem since_eq_nil {log : List Change} (h : .bound d ∈ log) :
    since d log = [] ↔ log.head? = some (.bound d) := by
  cases log with
  | nil => cases h
  | cons c log =>
    rw [since_cons]
    by_cases hc : c = .bound d <;> simp [hc]

structure Inv (x : Transition.Recorded SocketPath Change) : Prop where
  file : ∀ d, x.state.file = some d ↔ x.log.head? = some (.bound d)
  past : ∀ {d}, .bound d ∈ x.log → (x.state.daemons d).isPast = true
  listens : ∀ {d}, (x.state.daemons d).listens = true → .bound d ∈ x.log
  /-- before the path is bound again the socket there has been removed -/
  replaced : ∀ {d}, .bound d ∈ x.log →
    since d x.log = [] ∨ ∃ e, .removed e ∈ since d x.log

private theorem moves_daemons (P : SocketPath) (d e : Nat) (stage : PathStage) :
    (P.moves d stage).daemons e = if e = d then stage else P.daemons e := by
  simp only [moves, Function.update_apply]

/-- A daemon goes on, and the file stays. -/
theorem Inv.moves {log : List Change} (hx : Inv ⟨P, log⟩) {stage : PathStage}
    (hleads : (P.daemons d).Leads stage) : Inv ⟨P.moves d stage, log⟩ where
  file := hx.file
  past {e} he := by
    have hold := hx.past he
    rw [moves_daemons]
    split
    · rename_i hed
      subst hed
      exact hleads.1 hold
    · exact hold
  listens {e} he := by
    rw [moves_daemons] at he
    split at he
    · rename_i hed
      subst hed
      exact hx.listens (hleads.2 he)
    · exact hx.listens he
  replaced := hx.replaced

/-- Some daemon removes the file. -/
theorem Inv.removed {log : List Change} (hx : Inv ⟨P, log⟩) (e : Nat) :
    Inv ⟨{ P with file := none }, .removed e :: log⟩ where
  file d := by simp
  past he := by
    rcases List.mem_cons.mp he with h | h
    · cases h
    · exact hx.past h
  listens he := List.mem_cons_of_mem _ (hx.listens he)
  replaced {d} _ := by
    right
    use e
    simp [since_cons]

/-- A daemon binds the path, where nothing is. -/
theorem Inv.bind {log : List Change} (hx : Inv ⟨P, log⟩) (hfile : P.file = none) (d : Nat) :
    Inv ⟨{ P with file := some d }.moves d .bound, .bound d :: log⟩ where
  file e := by simp [SocketPath.moves]
  past {e} he := by
    rw [moves_daemons]
    split
    · rfl
    · rename_i hed
      rcases List.mem_cons.mp he with h | h
      · cases h
        exact absurd rfl hed
      · exact hx.past h
  listens {e} he := by
    rw [moves_daemons] at he
    split at he
    · rename_i hed
      rw [hed]
      exact List.mem_cons_self
    · exact List.mem_cons_of_mem _ (hx.listens he)
  replaced {e} he := by
    rw [since_cons]
    split
    · exact .inl rfl
    rename_i hde
    have hmem : .bound e ∈ log := by
      rcases List.mem_cons.mp he with h | h
      · exact absurd h.symm hde
      · exact h
    right
    rcases hx.replaced hmem with h | ⟨r, hr⟩
    · -- then the path would still be that daemon's
      have hsome := (hx.file e).mpr ((since_eq_nil hmem).mp h)
      rw [hfile] at hsome
      cases hsome
    · exact ⟨r, List.mem_cons_of_mem _ hr⟩

/-- What a step does to the path and the log. -/
theorem recorded_cases {log log' : List Change} {label : Label}
    (h : recorded.step ⟨P, log⟩ label = some ⟨P', log'⟩) :
    (∃ d stage, (P.daemons d).Leads stage ∧ P' = P.moves d stage ∧ log' = log) ∨
    (∃ d stage, (P.daemons d).Leads stage ∧ P' = { P with file := none }.moves d stage ∧
      log' = .removed d :: log) ∨
    ∃ d, P.daemons d = .binding ∧ P.file = none ∧
      P' = { P with file := some d }.moves d .bound ∧ log' = .bound d :: log := by
  obtain ⟨hs, hlog⟩ := Transition.System.step_record h
  replace hs : P.step label = some P' := hs
  replace hlog : log' = note P label P' ++ log := hlog
  cases label with
  | start d =>
    simp only [SocketPath.step, Option.ite_none_right_eq_some, Option.some.injEq] at hs
    have hleads : (P.daemons d).Leads .starting := by simp [hs.1]
    exact .inl ⟨d, _, hleads, hs.2.symm, hlog⟩
  | «exists» d =>
    simp only [SocketPath.step, Option.ite_none_right_eq_some, Option.some.injEq] at hs
    have hleads : (P.daemons d).Leads (if P.file.isSome then .removing else .binding) := by
      split <;> simp [hs.1]
    exact .inl ⟨d, _, hleads, hs.2.symm, hlog⟩
  | remove d =>
    simp only [SocketPath.step, Option.ite_none_right_eq_some] at hs
    obtain ⟨hstage, hs⟩ := hs
    cases hfile : P.file with
    | none =>
      rw [hfile] at hs
      refine .inl ⟨d, _, PathStage.leads_gone _, (Option.some.inj hs).symm, ?_⟩
      simpa [note, hfile] using hlog
    | some e =>
      rw [hfile] at hs
      have hleads : (P.daemons d).Leads .binding := by simp [hstage]
      refine .inr (.inl ⟨d, _, hleads, (Option.some.inj hs).symm, ?_⟩)
      simpa [note, hfile] using hlog
  | bind d =>
    simp only [SocketPath.step, Option.ite_none_right_eq_some] at hs
    obtain ⟨hstage, hs⟩ := hs
    cases hfile : P.file with
    | none =>
      rw [hfile] at hs
      refine .inr (.inr ⟨d, hstage, rfl, (Option.some.inj hs).symm, ?_⟩)
      simpa [note, hfile] using hlog
    | some e =>
      rw [hfile] at hs
      refine .inl ⟨d, _, PathStage.leads_gone _, (Option.some.inj hs).symm, ?_⟩
      simpa [note, hfile] using hlog
  | setPermissions d =>
    simp only [SocketPath.step, Option.ite_none_right_eq_some, Option.some.injEq] at hs
    have hleads : (P.daemons d).Leads (if P.file.isSome then .running else .gone) := by
      split <;> simp [hs.1]
    exact .inl ⟨d, _, hleads, hs.2.symm, hlog⟩
  | leaveLoop d =>
    simp only [SocketPath.step, Option.ite_none_right_eq_some, Option.some.injEq] at hs
    have hleads : (P.daemons d).Leads (.leaving 2) := by simp [hs.1]
    exact .inl ⟨d, _, hleads, hs.2.symm, hlog⟩
  | failInLoop d =>
    simp only [SocketPath.step, Option.ite_none_right_eq_some, Option.some.injEq] at hs
    have hleads : (P.daemons d).Leads (.leaving 1) := by simp [hs.1]
    exact .inl ⟨d, _, hleads, hs.2.symm, hlog⟩
  | cleanup d =>
    rw [SocketPath.step] at hs
    split at hs
    · rename_i n hstage
      have hleads : (P.daemons d).Leads (.leaving n) := by simp [hstage]
      cases hfile : P.file with
      | none =>
        have hP : { P with file := none } = P := by rw [← hfile]
        rw [hP] at hs
        refine .inl ⟨d, _, hleads, (Option.some.inj hs).symm, ?_⟩
        simpa [note, hfile] using hlog
      | some e =>
        refine .inr (.inl ⟨d, _, hleads, (Option.some.inj hs).symm, ?_⟩)
        simpa [note, hfile] using hlog
    · cases hs
  | close d =>
    simp only [SocketPath.step, Option.ite_none_right_eq_some, Option.some.injEq] at hs
    exact .inl ⟨d, _, PathStage.leads_gone _, hs.2.symm, hlog⟩
  | kill d =>
    simp only [SocketPath.step, Option.ite_none_left_eq_some, Option.some.injEq] at hs
    exact .inl ⟨d, _, PathStage.leads_gone _, hs.2.symm, hlog⟩

private theorem Inv.step (hx : Inv x) {label : Label} (h : recorded.step x label = some x') :
    Inv x' := by
  obtain ⟨P, log⟩ := x
  obtain ⟨P', log'⟩ := x'
  rcases recorded_cases h with ⟨d, stage, hleads, rfl, rfl⟩ | ⟨d, stage, hleads, rfl, rfl⟩ |
    ⟨d, -, hfile, rfl, rfl⟩
  · exact hx.moves hleads
  · exact (hx.removed d).moves hleads
  · exact hx.bind hfile d

private theorem inv_of_reachable (h : recorded.Reachable x) : Inv x := by
  refine h.invariant ?_ fun x label x' hx _ hs => hx.step hs
  rintro ⟨P, log⟩ ⟨rfl, rfl⟩
  constructor <;> simp

/-- A path that is no longer a daemon's does not become its again. -/
theorem Inv.lost_step (hx : Inv x) (hbound : .bound d ∈ x.log) (hlost : x.state.file ≠ some d)
    {label : Label} (h : recorded.step x label = some x') :
    .bound d ∈ x'.log ∧ x'.state.file ≠ some d := by
  obtain ⟨P, log⟩ := x
  obtain ⟨P', log'⟩ := x'
  rcases recorded_cases h with ⟨e, stage, -, rfl, rfl⟩ | ⟨e, stage, -, rfl, rfl⟩ |
    ⟨e, hstage, hfile, rfl, rfl⟩
  · exact ⟨hbound, hlost⟩
  · exact ⟨List.mem_cons_of_mem _ hbound, nofun⟩
  · refine ⟨List.mem_cons_of_mem _ hbound, ?_⟩
    intro hed
    cases hed
    -- the one that binds has not bound before
    have hpast := hx.past hbound
    rw [show P.daemons d = .binding from hstage] at hpast
    cases hpast

private theorem Inv.lost (hx : Inv x) (hbound : .bound d ∈ x.log) (hlost : x.state.file ≠ some d)
    {labels : List Label} (h : recorded.exec x labels = some x') : x'.state.file ≠ some d := by
  induction labels generalizing x with
  | nil =>
    cases h
    exact hlost
  | cons label labels ih =>
    obtain ⟨y, hy, hys⟩ := Option.bind_eq_some_iff.mp h
    obtain ⟨hbound', hlost'⟩ := hx.lost_step hbound hlost hy
    exact ih (hx.step hy) hbound' hlost' hys

/-- However daemons on one path come and go: a daemon that listens is reached by those who connect
until somebody, itself or another, has removed the file since it bound the path, and then never
again; nobody else is reached. -/
theorem reached_until_removed (h : recorded.Reachable x) (d : Nat) :
    (Reached x.state d ↔
      (x.state.daemons d).listens = true ∧ ∀ e, .removed e ∉ since d x.log) ∧
    ((x.state.daemons d).listens = true → ¬ Reached x.state d →
      ∀ labels x', recorded.exec x labels = some x' → ¬ Reached x'.state d) := by
  have hx := inv_of_reachable h
  constructor
  · constructor
    · rintro ⟨hfile, hlistens⟩
      refine ⟨hlistens, ?_⟩
      rw [(since_eq_nil (hx.listens hlistens)).mpr ((hx.file d).mp hfile)]
      simp
    · rintro ⟨hlistens, hkept⟩
      refine ⟨?_, hlistens⟩
      have hbound := hx.listens hlistens
      rcases hx.replaced hbound with hnil | ⟨e, he⟩
      · exact (hx.file d).mpr ((since_eq_nil hbound).mp hnil)
      · exact absurd he (hkept e)
  · rintro hlistens hnot labels x' hexec ⟨hfile, _⟩
    have hlost : x.state.file ≠ some d := fun h => hnot ⟨h, hlistens⟩
    exact hx.lost (hx.listens hlistens) hlost hexec hfile

/-- The second daemon takes the path over, and the first one ends. -/
def takeover : List Label :=
  [.start 0, .exists 0, .bind 0, .setPermissions 0,
    .start 1, .exists 1, .remove 1, .bind 1, .setPermissions 1,
    .leaveLoop 0, .cleanup 0]

theorem reached_until_removed_takeover : ∃ x, recorded.Reachable x ∧
    (x.state.daemons 1).listens = true ∧ since 1 x.log = [.removed 0] ∧ ¬ Reached x.state 1 ∧
    ∀ labels x', recorded.exec x labels = some x' → ¬ Reached x'.state 1 := by
  have hinit : recorded.Reachable ⟨⟨none, fun _ => .absent⟩, []⟩ := .start ⟨rfl, rfl⟩
  have hends : (recorded.exec ⟨⟨none, fun _ => .absent⟩, []⟩ takeover).map
      (fun x => (x.state.daemons 1, since 1 x.log)) = some (.running, [.removed 0]) := by decide
  obtain ⟨x, hx, hends⟩ := Option.map_eq_some_iff.mp hends
  obtain ⟨hstage, hsince⟩ := Prod.mk.inj hends
  have hreach : recorded.Reachable x := hinit.exec hx
  have hlistens : (x.state.daemons 1).listens = true := by rw [hstage]; rfl
  have hnot : ¬ Reached x.state 1 := by
    intro h
    have hkept := ((reached_until_removed hreach 1).1.mp h).2 0
    rw [hsince] at hkept
    exact hkept List.mem_cons_self
  exact ⟨x, hreach, hlistens, hsince, hnot, (reached_until_removed hreach 1).2 hlistens hnot⟩

end SocketPath

end PtyDaemon
