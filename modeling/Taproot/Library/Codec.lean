import Mathlib.Data.List.Basic

/-!
# Taproot.Library.Codec

**Prefix decoders**: a decoder takes what it reads off the front of a text and
leaves the rest. `Reads d enc x` says that `d` gives `x` back from what `enc`
writes for it, whatever follows; the combinators keep it (blocks of a given
length, blocks after their size, pairs, lists after their length, a magic text
in front), and `whole_eq` is about a decoder that has to read a text to its end.
-/

namespace Codec

variable {α β γ : Type*}

/-- What is read off the front, and the rest. -/
abbrev Decoder (α β : Type*) := List α → Option (β × List α)

/-- The decoder gives back what is written for `x`, whatever follows. -/
def Reads (d : Decoder α β) (enc : β → List α) (x : β) : Prop :=
  ∀ rest, d (enc x ++ rest) = some (x, rest)

/-- Decode a whole text. -/
def whole (d : Decoder α β) (l : List α) : Option β :=
  match d l with
  | some (x, []) => some x
  | _ => none

theorem whole_eq {d : Decoder α β} {enc : β → List α} {x : β} (h : Reads d enc x) :
    whole d (enc x) = some x := by
  have hread := h []
  rw [List.append_nil] at hread
  rw [whole, hread]

/-! ### Combinators -/

/-- A decoder whose result is converted. -/
def Decoder.map (f : β → γ) (d : Decoder α β) : Decoder α γ :=
  fun l => (d l).map fun p => (f p.1, p.2)

/-- One decoder after the other, the second chosen by what the first reads. -/
def Decoder.bind (d : Decoder α β) (f : β → Decoder α γ) : Decoder α γ :=
  fun l => (d l).bind fun p => f p.1 p.2

/-- The next `n` characters. -/
def block (n : Nat) : Decoder α (List α) :=
  fun l => if n ≤ l.length then some (l.take n, l.drop n) else none

theorem block_append (a rest : List α) : block a.length (a ++ rest) = some (a, rest) := by
  rw [block, if_pos (by simp), List.take_left, List.drop_left]

/-- A size, and then that many characters. -/
def sized (size : Decoder α Nat) : Decoder α (List α) := size.bind block

theorem reads_sized {size : Decoder α Nat} {enc : Nat → List α} {a : List α}
    (h : Reads size enc a.length) : Reads (sized size) (fun a => enc a.length ++ a) a := by
  intro rest
  rw [sized, Decoder.bind, List.append_assoc, h]
  exact block_append a rest

/-- Two decoders, one after the other. -/
def pair (d : Decoder α β) (d' : Decoder α γ) : Decoder α (β × γ) :=
  d.bind fun x => d'.map fun y => (x, y)

theorem reads_pair {d : Decoder α β} {d' : Decoder α γ} {enc : β → List α} {enc' : γ → List α}
    {x : β} {y : γ} (h : Reads d enc x) (h' : Reads d' enc' y) :
    Reads (pair d d') (fun p => enc p.1 ++ enc' p.2) (x, y) := by
  intro rest
  rw [pair, Decoder.bind, List.append_assoc, h]
  show Decoder.map _ d' (enc' y ++ rest) = _
  rw [Decoder.map, h']
  rfl

/-- The same decoder `n` times. -/
def times (d : Decoder α β) : Nat → Decoder α (List β)
  | 0 => fun l => some ([], l)
  | n + 1 => d.bind fun x => (times d n).map (x :: ·)

theorem reads_times {d : Decoder α β} {enc : β → List α} {xs : List β}
    (h : ∀ x ∈ xs, Reads d enc x) : Reads (times d xs.length) (·.flatMap enc) xs := by
  induction xs with
  | nil => exact fun rest => rfl
  | cons x xs ih =>
      intro rest
      have hrest := ih (fun y hy => h y (List.mem_cons_of_mem x hy)) rest
      -- the first decoder leaves the text of the others
      have hfirst : (x :: xs).flatMap enc ++ rest = enc x ++ (xs.flatMap enc ++ rest) := by
        rw [List.flatMap_cons, List.append_assoc]
      rw [List.length_cons, times, Decoder.bind]
      dsimp only
      rw [hfirst, h x List.mem_cons_self]
      show Decoder.map _ (times d xs.length) (xs.flatMap enc ++ rest) = _
      rw [Decoder.map, hrest]
      rfl

/-- A number, and then the same decoder that many times. -/
def counted (size : Decoder α Nat) (d : Decoder α β) : Decoder α (List β) := size.bind (times d)

theorem reads_counted {size : Decoder α Nat} {encSize : Nat → List α} {d : Decoder α β}
    {enc : β → List α} {xs : List β} (hsize : Reads size encSize xs.length)
    (h : ∀ x ∈ xs, Reads d enc x) :
    Reads (counted size d) (fun xs => encSize xs.length ++ xs.flatMap enc) xs := by
  intro rest
  rw [counted, Decoder.bind, List.append_assoc, hsize]
  exact reads_times h rest

/-- A decoder after a text that has to be there. -/
def marked [DecidableEq α] (magic : List α) (d : Decoder α β) : Decoder α β :=
  (block magic.length).bind fun m => if m = magic then d else fun _ => none

theorem reads_marked [DecidableEq α] (magic : List α) {d : Decoder α β} {enc : β → List α} {x : β}
    (h : Reads d enc x) : Reads (marked magic d) (fun x => magic ++ enc x) x := by
  intro rest
  rw [marked, Decoder.bind, List.append_assoc, block_append, Option.bind_some, if_pos rfl]
  exact h rest

/-! ### Sizes -/

theorem length_le_flatMap {enc : β → List α} {xs : List β} {x : β} (h : x ∈ xs) :
    (enc x).length ≤ (xs.flatMap enc).length := by
  obtain ⟨ys, zs, rfl⟩ := List.append_of_mem h
  rw [List.flatMap_append, List.flatMap_cons, List.length_append, List.length_append]
  omega

/-- There are no more parts than characters, if no part is empty. -/
theorem length_le_length_flatMap {enc : β → List α} (henc : ∀ x, 0 < (enc x).length) (xs : List β) :
    xs.length ≤ (xs.flatMap enc).length := by
  induction xs with
  | nil => exact Nat.zero_le _
  | cons x xs ih =>
      have hx := henc x
      rw [List.flatMap_cons, List.length_append, List.length_cons]
      omega

end Codec
