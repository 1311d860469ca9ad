import Mathlib.Algebra.GroupWithZero.Nat
import Mathlib.Data.List.AList

/-!
# Finite tables

Finite maps without dependent values, as hash maps are used: lookup after each update, changing
one value or all of them, and the list of values.
-/

variable {κ α : Type*}

abbrev Table (κ α : Type*) := AList (fun _ : κ => α)

namespace Table

variable [DecidableEq κ]

theorem lookup_insert (t : Table κ α) (k k' : κ) (v : α) :
    AList.lookup k' (t.insert k v) = if k' = k then some v else t.lookup k' := by
  by_cases h : k' = k
  · rw [if_pos h, h]
    exact AList.lookup_insert t
  · rw [if_neg h]
    exact AList.lookup_insert_ne h

theorem lookup_erase (t : Table κ α) (k k' : κ) :
    AList.lookup k' (t.erase k) = if k' = k then none else t.lookup k' := by
  by_cases h : k' = k
  · rw [if_pos h, h]
    exact AList.lookup_erase k t
  · rw [if_neg h]
    exact AList.lookup_erase_ne h

/-- A key that is inserted and erased again leaves no trace. -/
theorem erase_insert {t : Table κ α} {k : κ} (h : t.lookup k = none) (v : α) :
    (t.insert k v).erase k = t := by
  have hkey : k ∉ t.entries.keys := AList.lookup_eq_none.mp h
  apply AList.ext
  have hhead : ∀ e : (_ : κ) × α, (e :: List.kerase k t.entries).kerase e.1 =
      List.kerase k t.entries := fun _ => List.kerase_cons_eq rfl
  exact (hhead ⟨k, v⟩).trans (List.kerase_of_notMem_keys hkey)

def values (t : Table κ α) : List α := t.entries.map fun e => e.2

theorem mem_values {t : Table κ α} {v : α} : v ∈ t.values ↔ ∃ k, t.lookup k = some v := by
  constructor
  · intro h
    obtain ⟨e, he, rfl⟩ := List.mem_map.mp h
    exact ⟨e.1, AList.mem_lookup_iff.mpr he⟩
  · rintro ⟨k, hk⟩
    exact List.mem_map.mpr ⟨⟨k, v⟩, AList.mem_lookup_iff.mp hk, rfl⟩

theorem values_eq_nil {t : Table κ α} (h : ∀ k, t.lookup k = none) : t.values = [] := by
  apply List.eq_nil_iff_forall_not_mem.mpr
  intro v hv
  obtain ⟨k, hk⟩ := mem_values.mp hv
  rw [h] at hk
  cases hk

/-- Values that know their key are told apart by it. -/
theorem nodup_map_values {t : Table κ α} {f : α → κ} (hf : ∀ k v, t.lookup k = some v → f v = k) :
    (t.values.map f).Nodup := by
  have hkeys : t.values.map f = t.keys := by
    rw [values, List.map_map]
    exact List.map_congr_left fun e he => hf e.1 e.2 (AList.mem_lookup_iff.mpr he)
  rw [hkeys]
  exact t.nodupKeys

private def mapEntry (f : κ → α → α) : ((_ : κ) × α) → ((_ : κ) × α) := .map id f

omit [DecidableEq κ] in
private theorem keys_mapEntry (f : κ → α → α) (l : List ((_ : κ) × α)) :
    (l.map (mapEntry f)).keys = l.keys := by
  simp only [List.keys, List.map_map]
  rfl

/-- Apply `f` to every key and its value. -/
def mapWithKey (f : κ → α → α) (t : Table κ α) : Table κ α where
  entries := t.entries.map (mapEntry f)
  nodupKeys := by
    rw [List.NodupKeys, keys_mapEntry]
    exact t.nodupKeys

theorem lookup_mapWithKey (f : κ → α → α) (t : Table κ α) (k : κ) :
    AList.lookup k (t.mapWithKey f) = (t.lookup k).map (f k) :=
  List.dlookup_map₂ k

/-- Apply `f` to every value. -/
def mapVals (f : α → α) (t : Table κ α) : Table κ α := t.mapWithKey fun _ => f

theorem lookup_mapVals (f : α → α) (t : Table κ α) (k : κ) :
    AList.lookup k (t.mapVals f) = (t.lookup k).map f := lookup_mapWithKey _ t k

/-! ## Sums over a table -/

/-- The sum of `f` over all keys and their values. -/
def total (f : κ → α → Nat) (t : Table κ α) : Nat := (t.entries.map fun e => f e.1 e.2).sum

section Total

variable {f g : κ → α → Nat} {t : Table κ α} {k : κ} {v v' : α}

theorem total_insert (f : κ → α → Nat) (t : Table κ α) (k : κ) (v : α) :
    total f (t.insert k v) = f k v + total f (t.erase k) := rfl

theorem total_erase_none (f : κ → α → Nat) (h : t.lookup k = none) :
    total f (t.erase k) = total f t := by
  have hkey : k ∉ t.entries.keys := AList.lookup_eq_none.mp h
  exact congrArg (fun l => (l.map fun e => f e.1 e.2).sum) (List.kerase_of_notMem_keys hkey)

theorem total_erase_some (f : κ → α → Nat) (h : t.lookup k = some v) :
    total f t = f k v + total f (t.erase k) := by
  have hkey : k ∈ t.entries.keys := AList.lookup_isSome.mp (h ▸ rfl)
  obtain ⟨w, l₁, l₂, _, hentries, herased⟩ := List.exists_of_kerase hkey
  have hw : t.lookup k = some w := AList.mem_lookup_iff.mpr (by simp [hentries])
  cases h.symm.trans hw
  have herase : (t.erase k).entries = l₁ ++ l₂ := herased
  simp only [total, hentries, herase, List.map_append, List.map_cons, List.sum_append,
    List.sum_cons]
  omega

theorem le_total (f : κ → α → Nat) (h : t.lookup k = some v) : f k v ≤ total f t := by
  rw [total_erase_some f h]
  exact Nat.le_add_right _ _

theorem total_congr (h : ∀ k v, t.lookup k = some v → f k v = g k v) : total f t = total g t := by
  apply congrArg List.sum
  exact List.map_congr_left fun e he => h e.1 e.2 (AList.mem_lookup_iff.mpr he)

theorem total_eq_zero (h : ∀ k v, t.lookup k = some v → f k v = 0) : total f t = 0 := by
  rw [total_congr h]
  simp [total]

omit [DecidableEq κ] in
/-- The sum of an indicator is the number of values it picks. -/
theorem total_indicator (p : α → Prop) [DecidablePred p] (t : Table κ α) :
    total (fun _ v => if p v then 1 else 0) t = (t.values.filter p).length := by
  rw [total, values]
  induction t.entries with
  | nil => rfl
  | cons e l ih =>
    rw [List.map_cons, List.sum_cons, List.map_cons, ih, List.filter_cons]
    by_cases hp : p e.2
    · simp [hp, Nat.add_comm]
    · simp [hp]

end Total

end Table
