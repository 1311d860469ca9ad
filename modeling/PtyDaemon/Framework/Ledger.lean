import Mathlib.Logic.Function.Basic
import PtyDaemon.Framework.Table

/-!
# Numbered resources

A resource gets a free number when it is opened and gives it back when it is closed. A ledger lists
the calls, each with what the caller takes the number to refer to; a call on a number that is in
use, or that refers to something else, makes the ledger fail. A ledger that does not fail has closed
everything it has opened, except what is still held.

The numbers of a process may also be seen as a function to what they refer to. A new process gets all
of them, and `exec` takes those with the close-on-exec flag away.
-/

namespace Ledger

variable {κ α : Type*}

inductive Call (κ α : Type*)
  | opened (key : κ) (value : α)
  | closed (key : κ) (value : α)
  deriving DecidableEq

section Counting

variable [DecidableEq α]

/-- How often the resource has been opened. -/
def opens (value : α) (calls : List (Call κ α)) : Nat :=
  calls.countP fun
    | .opened _ v => v = value
    | .closed _ _ => false

def closes (value : α) (calls : List (Call κ α)) : Nat :=
  calls.countP fun
    | .opened _ _ => false
    | .closed _ v => v = value

@[simp] theorem opens_nil (value : α) : opens value ([] : List (Call κ α)) = 0 := rfl

@[simp] theorem opens_append (value : α) (calls calls' : List (Call κ α)) :
    opens value (calls ++ calls') = opens value calls + opens value calls' := List.countP_append

@[simp] theorem closes_append (value : α) (calls calls' : List (Call κ α)) :
    closes value (calls ++ calls') = closes value calls + closes value calls' := List.countP_append

theorem opens_eq_zero {calls : List (Call κ α)} (value : α)
    (h : ∀ call ∈ calls, ∃ key v, call = .closed key v) : opens value calls = 0 := by
  apply List.countP_eq_zero.mpr
  intro call hcall
  obtain ⟨key, v, rfl⟩ := h call hcall
  simp

end Counting

variable [DecidableEq κ] [DecidableEq α]

/-- `none`: the number is in use, or it does not refer to what is to be closed. -/
def Call.run (t : Table κ α) : Call κ α → Option (Table κ α)
  | .opened key value => if t.lookup key = none then some (t.insert key value) else none
  | .closed key value => if t.lookup key = some value then some (t.erase key) else none

/-- Make the calls of a ledger, the oldest first. -/
def replay : List (Call κ α) → Table κ α → Option (Table κ α)
  | [], t => some t
  | call :: calls, t => (call.run t).bind (replay calls)

variable {t t' t'' : Table κ α} {calls calls' : List (Call κ α)} {key : κ} {value : α}

@[simp] theorem replay_nil (t : Table κ α) : replay [] t = some t := rfl

theorem replay_append (calls calls' : List (Call κ α)) (t : Table κ α) :
    replay (calls ++ calls') t = (replay calls t).bind (replay calls') := by
  induction calls generalizing t with
  | nil => rfl
  | cons call calls ih =>
    simp only [List.cons_append, replay, Option.bind_assoc]
    exact congrArg _ (funext ih)

theorem replay_trans (h : replay calls t = some t') (h' : replay calls' t' = some t'') :
    replay (calls ++ calls') t = some t'' := by
  rw [replay_append, h, Option.bind_some, h']

theorem replay_opened (h : t.lookup key = none) :
    replay [.opened key value] t = some (t.insert key value) := by
  simp [replay, Call.run, h]

theorem replay_closed (h : t.lookup key = some value) :
    replay [.closed key value] t = some (t.erase key) := by
  simp [replay, Call.run, h]

/-- What is not closed keeps its number. -/
theorem replay_kept (h : replay calls t = some t') (hkey : t.lookup key = some value)
    (hnone : closes value calls = 0) : t'.lookup key = some value := by
  induction calls generalizing t with
  | nil =>
    cases h
    exact hkey
  | cons call calls ih =>
    obtain ⟨u, hu, h⟩ := Option.bind_eq_some_iff.mp h
    have hsplit := closes_append value [call] calls
    rw [List.singleton_append, hnone] at hsplit
    refine ih h ?_ (by omega)
    cases call with
    | opened k v =>
      simp only [Call.run] at hu
      split at hu
      · rename_i hfree
        cases hu
        have hne : key ≠ k := by
          rintro rfl
          rw [hfree] at hkey
          cases hkey
        rw [Table.lookup_insert, if_neg hne, hkey]
      · cases hu
    | closed k v =>
      simp only [Call.run] at hu
      split at hu
      · rename_i hheld
        cases hu
        have hne : key ≠ k := by
          rintro rfl
          rw [hheld] at hkey
          cases hkey
          have hone : closes value [Call.closed key value] = 1 := by simp [closes]
          omega
        rw [Table.lookup_erase, if_neg hne, hkey]
      · cases hu

/-- What is not opened had its number before. -/
theorem replay_old (h : replay calls t = some t') (hkey : t'.lookup key = some value)
    (hnone : opens value calls = 0) : t.lookup key = some value := by
  induction calls generalizing t with
  | nil =>
    cases h
    exact hkey
  | cons call calls ih =>
    obtain ⟨u, hu, h⟩ := Option.bind_eq_some_iff.mp h
    have hsplit := opens_append value [call] calls
    rw [List.singleton_append, hnone] at hsplit
    have hkey := ih h (by omega)
    cases call with
    | opened k v =>
      simp only [Call.run] at hu
      split at hu
      · cases hu
        rw [Table.lookup_insert] at hkey
        split at hkey
        · cases hkey
          have hone : opens value [Call.opened k value] = 1 := by simp [opens]
          omega
        · exact hkey
      · cases hu
    | closed k v =>
      simp only [Call.run] at hu
      split at hu
      · cases hu
        rw [Table.lookup_erase] at hkey
        split at hkey
        · cases hkey
        · exact hkey
      · cases hu

/-- Numbers that are all in use are closed one after another. -/
theorem replay_closeAll {entries : List (κ × α)} (hnodup : (entries.map Prod.fst).Nodup)
    (hheld : ∀ e ∈ entries, t.lookup e.1 = some e.2) :
    replay (entries.map fun e => .closed e.1 e.2) t =
      some ((entries.map Prod.fst).foldl (fun t key => t.erase key) t) := by
  induction entries generalizing t with
  | nil => rfl
  | cons e entries ih =>
    rw [List.map_cons, List.nodup_cons] at hnodup
    have hfirst := replay_closed (hheld e List.mem_cons_self)
    rw [List.map_cons, ← List.singleton_append, List.map_cons, List.foldl_cons]
    apply replay_trans hfirst
    apply ih hnodup.2
    intro e' he'
    have hne : e'.1 ≠ e.1 := fun heq => hnodup.1 (heq ▸ List.mem_map_of_mem he')
    rw [Table.lookup_erase, if_neg hne]
    exact hheld e' (List.mem_cons_of_mem e he')

omit [DecidableEq α] in
theorem lookup_eraseAll (t : Table κ α) (keys : List κ) (key : κ) :
    (keys.foldl (fun t key => t.erase key) t).lookup key =
      if key ∈ keys then none else t.lookup key := by
  induction keys generalizing t with
  | nil => rfl
  | cons k keys ih =>
    rw [List.foldl_cons, ih, Table.lookup_erase]
    by_cases hk : key = k <;> by_cases hin : key ∈ keys <;> simp [hk, hin]

/-! ## The balance -/

/-- How many numbers refer to the resource. -/
def held (value : α) (t : Table κ α) : Nat := t.total fun _ v => if v = value then 1 else 0

theorem call_balance {call : Call κ α} (value : α) (h : call.run t = some t') :
    opens value [call] + held value t = closes value [call] + held value t' := by
  cases call with
  | opened key v =>
    simp only [Call.run] at h
    split at h
    · rename_i hfree
      cases h
      rw [held, held, Table.total_insert, Table.total_erase_none _ hfree]
      by_cases hv : v = value <;> simp [opens, closes, hv]
    · cases h
  | closed key v =>
    simp only [Call.run] at h
    split at h
    · rename_i hkey
      cases h
      rw [held, held, Table.total_erase_some _ hkey]
      by_cases hv : v = value <;> simp [opens, closes, hv]
    · cases h

/-- What has been opened or was held before has been closed or is held. -/
theorem balance (value : α) (h : replay calls t = some t') :
    opens value calls + held value t = closes value calls + held value t' := by
  induction calls generalizing t with
  | nil =>
    cases h
    rfl
  | cons call calls ih =>
    obtain ⟨u, hu, h⟩ := Option.bind_eq_some_iff.mp h
    have hfirst := call_balance value hu
    have hrest := ih h
    have hopens := opens_append value [call] calls
    have hcloses := closes_append value [call] calls
    rw [List.singleton_append] at hopens hcloses
    omega

theorem held_eq_zero (h : ∀ key, t.lookup key ≠ some value) : held value t = 0 := by
  apply Table.total_eq_zero
  intro key v hv
  rw [if_neg]
  rintro rfl
  exact h key hv

theorem ne_of_held_eq_zero (h : held value t = 0) (key : κ) : t.lookup key ≠ some value := by
  intro hkey
  have hle := Table.le_total (fun _ v => if v = value then 1 else 0) hkey
  rw [if_pos rfl] at hle
  rw [held] at h
  omega

/-- A resource with one number is held once. -/
theorem held_eq_one (h : t.lookup key = some value)
    (hone : ∀ k, t.lookup k = some value → k = key) : held value t = 1 := by
  have hrest : held value (t.erase key) = 0 := by
    apply held_eq_zero
    intro k hk
    rw [Table.lookup_erase] at hk
    split at hk
    · cases hk
    · rename_i hne
      exact hne (hone k hk)
  rw [held, Table.total_erase_some _ h, if_pos rfl]
  rw [held] at hrest
  omega

end Ledger

/-! ## Across `exec` -/

/-- What a number refers to, and whether `exec` closes it. -/
structure Slot (α : Type*) where
  object : α
  cloexec : Bool
  deriving DecidableEq

abbrev Descriptors (κ α : Type*) := κ → Option (Slot α)

namespace Descriptors

variable {κ α : Type*} [DecidableEq κ] {t : Descriptors κ α} {k k' : κ} {s : Slot α} {a : α}

def put (t : Descriptors κ α) (k : κ) (s : Slot α) : Descriptors κ α :=
  Function.update t k (some s)

def close (t : Descriptors κ α) (k : κ) : Descriptors κ α := Function.update t k none

/-- `dup2` makes a number refer to an object, whatever it referred to before; `exec` keeps it. -/
def dup2 (t : Descriptors κ α) (k : κ) (a : α) : Descriptors κ α := t.put k ⟨a, false⟩

/-- What is left after `exec`. -/
def exec (t : Descriptors κ α) : κ → Option α := fun k =>
  (t k).bind fun s => if s.cloexec then none else some s.object

theorem put_apply (t : Descriptors κ α) (k k' : κ) (s : Slot α) :
    t.put k s k' = if k' = k then some s else t k' := by
  rw [put, Function.update_apply]

theorem close_apply (t : Descriptors κ α) (k k' : κ) :
    t.close k k' = if k' = k then none else t k' := by
  rw [close, Function.update_apply]

theorem dup2_apply (t : Descriptors κ α) (k k' : κ) (a : α) :
    t.dup2 k a k' = if k' = k then some ⟨a, false⟩ else t k' := put_apply t k k' _

/-- A number that was free is free again. -/
theorem close_put (h : t k = none) (s : Slot α) : (t.put k s).close k = t := by
  rw [put, close, Function.update_idem, ← h, Function.update_eq_self]

theorem close_put_of_ne (h : k ≠ k') (t : Descriptors κ α) (s : Slot α) :
    (t.put k s).close k' = (t.close k').put k s := by
  funext i
  simp only [close_apply, put_apply]
  by_cases hi : i = k
  · subst hi
    simp [h]
  · simp [hi]

omit [DecidableEq κ] in
theorem exec_eq_some : t.exec k = some a ↔ t k = some ⟨a, false⟩ := by
  rw [exec]
  cases h : t k with
  | none => simp
  | some s =>
    obtain ⟨object, cloexec⟩ := s
    cases cloexec <;> simp

end Descriptors
