import Mathlib.Logic.Basic

/-!
# Guarded runs of labelled systems

A system has initial states and, for every label, a partial step. Runs grow one step at a
time, and a guard says which steps a run may take; the trivial guard gives all reachable
states. Invariants are proved once, by the rule `Reach.invariant`. A system may be given a log of
its steps, which changes nothing about its runs.
-/

namespace Transition

universe u v w

/-- Initial states and, for every label, the state its step leads to. -/
structure System (σ : Type u) (ε : Type v) where
  init : σ → Prop
  step : σ → ε → Option σ

namespace System

variable {σ : Type u} {ε : Type v} (S : System σ ε)

/-- States reached by the runs all of whose steps meet `guard`. -/
inductive Reach (guard : σ → ε → Prop) : σ → Prop
  | start {s : σ} (h : S.init s) : Reach guard s
  | next {s s' : σ} {e : ε} (h : Reach guard s) (hg : guard s e) (hs : S.step s e = some s') :
      Reach guard s'

/-- States reached when every step is allowed. -/
abbrev Reachable (s : σ) : Prop := S.Reach (fun _ _ => True) s

/-- Execute the labels from left to right. -/
def exec (s : σ) : List ε → Option σ
  | [] => some s
  | e :: es => (S.step s e).bind fun s' => exec s' es

variable {S}

/-- What holds initially and is kept by every allowed step holds in every state reached. -/
theorem Reach.invariant {guard : σ → ε → Prop} {P : σ → Prop}
    (hinit : ∀ s, S.init s → P s)
    (hstep : ∀ s e s', P s → guard s e → S.step s e = some s' → P s')
    {s : σ} (h : S.Reach guard s) : P s := by
  induction h with
  | start hi => exact hinit _ hi
  | next _ hg hs ih => exact hstep _ _ _ ih hg hs

/-- The same rule when an invariant already proved for these runs may be used at each step. -/
theorem Reach.invariant_with {guard : σ → ε → Prop} {P Q : σ → Prop}
    (hQ : ∀ s, S.Reach guard s → Q s)
    (hinit : ∀ s, S.init s → P s)
    (hstep : ∀ s e s', Q s → P s → guard s e → S.step s e = some s' → P s')
    {s : σ} (h : S.Reach guard s) : P s := by
  induction h with
  | start hi => exact hinit _ hi
  | next hr hg hs ih => exact hstep _ _ _ (hQ _ hr) ih hg hs

/-- A weaker guard allows more runs. -/
theorem Reach.mono {guard guard' : σ → ε → Prop} (hg : ∀ s e, guard s e → guard' s e)
    {s : σ} (h : S.Reach guard s) : S.Reach guard' s := by
  induction h with
  | start hi => exact .start hi
  | next _ hge hs ih => exact .next ih (hg _ _ hge) hs

/-- Every guarded run is a run. -/
theorem Reach.reachable {guard : σ → ε → Prop} {s : σ} (h : S.Reach guard s) : S.Reachable s :=
  h.mono fun _ _ _ => trivial

theorem exec_append (s : σ) (es fs : List ε) :
    S.exec s (es ++ fs) = (S.exec s es).bind fun s' => S.exec s' fs := by
  induction es generalizing s with
  | nil => rfl
  | cons e es ih =>
    simp only [List.cons_append, exec, Option.bind_assoc]
    exact congrArg _ (funext ih)

/-- Executing labels that always meet the guard. -/
theorem Reach.exec {guard : σ → ε → Prop} {s s' : σ} (h : S.Reach guard s) {es : List ε}
    (hg : ∀ e ∈ es, ∀ s, guard s e) (he : S.exec s es = some s') : S.Reach guard s' := by
  induction es generalizing s with
  | nil =>
    cases he
    exact h
  | cons e es ih =>
    obtain ⟨t, ht, hts⟩ := Option.bind_eq_some_iff.mp he
    exact ih (h.next (hg e List.mem_cons_self s) ht) (fun f hf => hg f (List.mem_cons_of_mem e hf))
      hts

/-- Executing labels from a reachable state leads to a reachable state. -/
theorem Reachable.exec {s s' : σ} (h : S.Reachable s) {es : List ε}
    (he : S.exec s es = some s') : S.Reachable s' :=
  Reach.exec h (fun _ _ _ => trivial) he

/-- Execute the labels as long as each step meets the guard. -/
def execWhere (S : System σ ε) (guard : σ → ε → Prop) [∀ s e, Decidable (guard s e)] (s : σ) :
    List ε → Option σ
  | [] => some s
  | e :: es =>
    if guard s e then (S.step s e).bind fun s' => execWhere S guard s' es else none

theorem Reach.execWhere {guard : σ → ε → Prop} [∀ s e, Decidable (guard s e)] {s s' : σ}
    (h : S.Reach guard s) {es : List ε} (he : S.execWhere guard s es = some s') :
    S.Reach guard s' := by
  induction es generalizing s with
  | nil =>
    cases he
    exact h
  | cons e es ih =>
    rw [System.execWhere] at he
    split at he
    · rename_i hg
      obtain ⟨t, ht, hts⟩ := Option.bind_eq_some_iff.mp he
      exact ih (h.next hg ht) hts
    · cases he

/-! ## A log of the steps -/

end System

/-- A state and what has been noted on the way to it, newest first. -/
structure Recorded (σ : Type u) (α : Type w) where
  state : σ
  log : List α

namespace System

variable {α : Type w} {S : System σ ε} {note : σ → ε → σ → List α}

/-- The system with a log, in which `note` says what a step leaves. -/
def record (S : System σ ε) (note : σ → ε → σ → List α) : System (Recorded σ α) ε where
  init x := S.init x.state ∧ x.log = []
  step x e := (S.step x.state e).map fun s => ⟨s, note x.state e s ++ x.log⟩

theorem step_record {x x' : Recorded σ α} {e : ε} (h : (S.record note).step x e = some x') :
    S.step x.state e = some x'.state ∧ x'.log = note x.state e x'.state ++ x.log := by
  obtain ⟨s, hs, rfl⟩ := Option.map_eq_some_iff.mp h
  exact ⟨hs, rfl⟩

/-- Every run can be recorded. -/
theorem Reach.recorded (note : σ → ε → σ → List α) {s : σ} (h : S.Reachable s) :
    ∃ x, (S.record note).Reachable x ∧ x.state = s := by
  induction h with
  | start hi => exact ⟨⟨_, []⟩, .start ⟨hi, rfl⟩, rfl⟩
  | @next s s' e _ _ hs ih =>
    obtain ⟨x, hx, rfl⟩ := ih
    have hstep : (S.record note).step x e = some ⟨s', note x.state e s' ++ x.log⟩ :=
      Option.map_eq_some_iff.mpr ⟨s', hs, rfl⟩
    exact ⟨_, hx.next trivial hstep, rfl⟩

/-- Without its log, a run is a run of the system. -/
theorem Reach.unrecorded {guard : Recorded σ α → ε → Prop} {x : Recorded σ α}
    (h : (S.record note).Reach guard x) : S.Reachable x.state := by
  induction h with
  | start hi => exact .start hi.1
  | next _ _ hs ih => exact ih.next trivial (step_record hs).1

end System

end Transition
