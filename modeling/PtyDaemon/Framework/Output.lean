import Mathlib.Data.List.Basic
import Mathlib.Tactic.Common

/-!
# Frames written to a stream

Frames are written to a stream one after another, and a write may stop short. As long as nothing
goes out after a write that stopped inside its frame, the stream consists of whole frames and
perhaps the beginning of a last one. Histories are newest first.
-/

namespace Output

/-- A frame and how much of it went out. -/
structure Write (γ : Type*) where
  frame : γ
  put : Nat
  deriving DecidableEq

variable {β γ : Type*} (encode : γ → List β)

def Write.bytes (w : Write γ) : List β := (encode w.frame).take w.put

/-- The write stopped inside its frame. -/
def Write.Torn (w : Write γ) : Prop := 0 < w.put ∧ w.put < (encode w.frame).length

instance (w : Write γ) : Decidable (w.Torn encode) :=
  inferInstanceAs (Decidable (0 < w.put ∧ w.put < (encode w.frame).length))

/-- What the stream has got. -/
def stream : List (Write γ) → List β
  | [] => []
  | w :: log => stream log ++ w.bytes encode

/-- The stream consists of whole frames and perhaps the beginning of a last one, after which nothing
is written any more. -/
structure Whole (log : List (Write γ)) : Prop where
  bytes : ∃ (fs : List γ) (tail : List β), stream encode log = fs.flatMap encode ++ tail ∧
    (tail = [] ∨ ∃ f, tail <+: encode f ∧ tail.length < (encode f).length)
  last : ∀ newer w older, log = newer ++ w :: older → w.Torn encode → ∀ v ∈ newer, v.put = 0

/-- No write put anything after one that stopped inside its frame. -/
def Unbroken : List (Write γ) → Prop
  | [] => True
  | w :: log => Unbroken log ∧ (0 < w.put → ∀ v ∈ log, ¬ v.Torn encode)

variable {encode} {w : Write γ} {log : List (Write γ)}

theorem bytes_nil (h : w.put = 0) : w.bytes encode = [] := by
  rw [Write.bytes, h, List.take_zero]

theorem bytes_whole (h : (encode w.frame).length ≤ w.put) : w.bytes encode = encode w.frame :=
  List.take_of_length_le h

theorem Unbroken.last (h : Unbroken encode log) {newer older : List (Write γ)}
    (hlog : log = newer ++ w :: older) (hw : w.Torn encode) : ∀ v ∈ newer, v.put = 0 := by
  subst hlog
  induction newer with
  | nil =>
    intro v hv
    cases hv
  | cons u newer ih =>
    intro v hv
    rcases List.mem_cons.mp hv with rfl | hv
    · by_contra hput
      have hspared := h.2 (Nat.pos_of_ne_zero hput) w
      exact hspared (List.mem_append_right newer List.mem_cons_self) hw
    · exact ih h.1 v hv

/-- What follows the whole frames is what the torn write has put. -/
theorem Unbroken.stream_eq (h : Unbroken encode log) :
    ∃ (fs : List γ) (tail : List β), stream encode log = fs.flatMap encode ++ tail ∧
      (tail = [] ∨ ∃ w ∈ log, w.Torn encode ∧ tail = w.bytes encode) := by
  induction log with
  | nil => exact ⟨[], [], rfl, .inl rfl⟩
  | cons w log ih =>
    obtain ⟨fs, tail, hstream, htail⟩ := ih h.1
    by_cases hput : w.put = 0
    · refine ⟨fs, tail, ?_, ?_⟩
      · rw [stream, bytes_nil hput, List.append_nil, hstream]
      · apply htail.imp_right
        rintro ⟨v, hv, htorn⟩
        exact ⟨v, List.mem_cons_of_mem w hv, htorn⟩
    · have hpos := Nat.pos_of_ne_zero hput
      have hnil : tail = [] := by
        rcases htail with hnil | ⟨v, hv, htorn, _⟩
        · exact hnil
        · exact absurd htorn (h.2 hpos v hv)
      rw [hnil, List.append_nil] at hstream
      by_cases hwhole : (encode w.frame).length ≤ w.put
      · refine ⟨fs ++ [w.frame], [], ?_, .inl rfl⟩
        rw [stream, hstream, bytes_whole hwhole]
        simp
      · refine ⟨fs, w.bytes encode, ?_, .inr ⟨w, List.mem_cons_self, ?_, rfl⟩⟩
        · rw [stream, hstream]
        · exact ⟨hpos, Nat.lt_of_not_le hwhole⟩

theorem Unbroken.whole (h : Unbroken encode log) : Whole encode log where
  bytes := by
    obtain ⟨fs, tail, hstream, htail⟩ := h.stream_eq
    refine ⟨fs, tail, hstream, htail.imp_right ?_⟩
    rintro ⟨w, _, htorn, rfl⟩
    refine ⟨w.frame, List.take_prefix _ _, ?_⟩
    rw [Write.bytes, List.length_take]
    exact Nat.lt_of_le_of_lt (Nat.min_le_left _ _) htorn.2
  last _ _ _ hlog hw := h.last hlog hw

theorem unbroken_of_last
    (h : ∀ newer w older, log = newer ++ w :: older → w.Torn encode → ∀ v ∈ newer, v.put = 0) :
    Unbroken encode log := by
  induction log with
  | nil => trivial
  | cons w log ih =>
    constructor
    · apply ih
      intro newer v older hlog hv u hu
      have hcons : w :: log = (w :: newer) ++ v :: older := by rw [hlog, List.cons_append]
      exact h _ v older hcons hv u (List.mem_cons_of_mem w hu)
    · intro hput v hv htorn
      obtain ⟨newer, older, hlog⟩ := List.append_of_mem hv
      have hcons : w :: log = (w :: newer) ++ v :: older := by rw [hlog, List.cons_append]
      have hzero := h _ v older hcons htorn w List.mem_cons_self
      exact Nat.ne_of_gt hput hzero

theorem whole_iff : Whole encode log ↔ Unbroken encode log :=
  ⟨fun h => unbroken_of_last h.last, Unbroken.whole⟩

end Output
