import Mathlib.Data.List.Basic
import Mathlib.Tactic.Common

/-!
# A stream with objects that come along

Every element of a stream may have an object with it. A read takes the elements and loses the
objects, so what is read up to the place of an object has to end right before it.
-/

namespace Ancillary

variable {β γ : Type*}

/-- Elements without objects. -/
def plain (bytes : List β) : List (β × Option γ) := bytes.map fun b => (b, none)

/-- What a read makes of a piece of the stream. -/
def bytesOf (piece : List (β × Option γ)) : List β := piece.map Prod.fst

/-- The piece does not run on into a place where something comes along. -/
def Halts (piece : List (β × Option γ)) : Prop := ∀ p ∈ piece.tail, p.2 = none

@[simp] theorem bytesOf_plain (bytes : List β) :
    bytesOf (plain bytes : List (β × Option γ)) = bytes := by
  simp [bytesOf, plain, Function.comp_def]

theorem bytesOf_append (s t : List (β × Option γ)) :
    bytesOf (s ++ t) = bytesOf s ++ bytesOf t := List.map_append

theorem bytesOf_flatten (pieces : List (List (β × Option γ))) :
    bytesOf pieces.flatten = (pieces.map bytesOf).flatten := List.map_flatten

@[simp] theorem length_plain (bytes : List β) :
    (plain bytes : List (β × Option γ)).length = bytes.length := List.length_map _

@[simp] theorem length_bytesOf (s : List (β × Option γ)) : (bytesOf s).length = s.length :=
  List.length_map _

variable {front : List β} {b : β} {object : γ} {start last rest more : List (β × Option γ)}

/-- What is read is at least as long as the elements in front, so it begins with them. -/
theorem front_prefix {piece stream : List (β × Option γ)}
    (hstream : piece ++ rest = plain front ++ stream) (hlong : front.length ≤ piece.length) :
    front <+: bytesOf piece := by
  have hbytes := congrArg bytesOf hstream
  rw [bytesOf_append, bytesOf_append, bytesOf_plain] at hbytes
  apply List.prefix_of_prefix_length_le (List.prefix_append front (bytesOf stream))
  · rw [← hbytes]
    exact List.prefix_append _ _
  · rwa [length_bytesOf]

/-- Read up to the object, the rest begins with it. -/
theorem rest_of_length (hstream : start ++ last ++ rest = plain front ++ (b, some object) :: more)
    (hends : (start ++ last).length = front.length) : rest = (b, some object) :: more :=
  (List.append_inj hstream (by rw [hends, length_plain])).2

/-- Read further than that, the rest is a part of what follows the object. -/
theorem rest_of_lt (hstream : start ++ last ++ rest = plain front ++ (b, some object) :: more)
    (hover : front.length < (start ++ last).length) : rest.length ≤ more.length := by
  have hlength := congrArg List.length hstream
  simp only [List.length_append, length_plain, List.length_cons] at hlength hover
  omega

/-- A piece that halts and begins before the object ends before it. -/
theorem Halts.ends (hhalts : Halts last)
    (hstream : start ++ last ++ rest = plain front ++ (b, some object) :: more)
    (hbefore : start.length < front.length) : (start ++ last).length ≤ front.length := by
  by_contra hover
  rw [List.length_append] at hover
  have hget : (start ++ last ++ rest)[front.length]? = some (b, some object) := by
    rw [hstream, List.getElem?_append_right (by simp), length_plain, Nat.sub_self]
    rfl
  rw [List.append_assoc, List.getElem?_append_right (by omega),
    List.getElem?_append_left (by omega)] at hget
  cases last with
  | nil => cases hget
  | cons p piece =>
    obtain ⟨k, hk⟩ : ∃ k, front.length - start.length = k + 1 :=
      Nat.exists_eq_succ_of_ne_zero (by omega)
    rw [hk, List.getElem?_cons_succ] at hget
    cases hhalts _ (List.mem_of_getElem? hget)

end Ancillary
