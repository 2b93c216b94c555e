import Taproot.Library.Chunks

/-!
# Taproot.Library.Delimiters

Bodies that end with an **in-band delimiter**.

`before` cuts a text at the first delimiter, and `readBody` is the reader that
takes chunks until it has seen one. It reads a body back, and the delimiter
with it, exactly if the delimiter is not in the body (`readBody_iff`); that
takes a delimiter which cannot overlap itself, here one whose first character
does not come again.

The last part is about texts put together from pieces: where a delimiter in
them can lie (`infix_append_iff_of_last`, `infix_flatMap_append_iff`).
-/

namespace Chunks

variable {α : Type*}

/-! ### Cutting at a delimiter -/

section before

variable [DecidableEq α]

/-- What comes before the first delimiter. -/
def before (delim : List α) : List α → List α
  | [] => []
  | x :: xs => if delim <+: x :: xs then [] else x :: before delim xs

theorem before_append_isPrefix {delim l : List α} (h : delim <:+: l) :
    before delim l ++ delim <+: l := by
  induction l with
  | nil =>
      obtain rfl := List.infix_nil.mp h
      exact List.prefix_refl _
  | cons x l ih =>
      rw [before]
      split
      · assumption
      · next hnot =>
          exact List.cons_prefix_cons.mpr ⟨rfl, ih ((List.infix_cons_iff.mp h).resolve_left hnot)⟩

/-- What follows a delimiter changes nothing before it. -/
theorem before_append {delim a : List α} (h : delim <:+: a) (b : List α) :
    before delim (a ++ b) = before delim a := by
  induction a with
  | nil =>
      obtain rfl := List.infix_nil.mp h
      cases b with
      | nil => rfl
      | cons y b => exact if_pos List.nil_prefix
  | cons x a ih =>
      have hpre : delim <+: x :: a ++ b ↔ delim <+: x :: a :=
        ⟨fun hb => List.prefix_of_prefix_length_le hb (List.prefix_append _ _) h.length_le,
          fun ha => ha.trans (List.prefix_append _ _)⟩
      rw [List.cons_append, before, before]
      split
      · next hb => rw [if_pos (hpre.mp hb)]
      · next hb =>
          have hnot := fun ha => hb (hpre.mpr ha)
          rw [if_neg hnot, ih ((List.infix_cons_iff.mp h).resolve_left hnot)]

/-- The delimiter at the end is the first one, if there is none in the body. -/
theorem before_append_self {d : α} {ds body : List α} (hd : d ∉ ds) (h : ¬d :: ds <:+: body) :
    before (d :: ds) (body ++ d :: ds) = body := by
  induction body with
  | nil => exact if_pos (List.prefix_refl _)
  | cons x body ih =>
      have hnot : ¬d :: ds <+: x :: body ++ d :: ds := by
        intro hpre
        rcases Nat.le_total (d :: ds).length (x :: body).length with hle | hle
        · exact h (List.prefix_of_prefix_length_le hpre (List.prefix_append _ _) hle).isInfix
        · -- the delimiter would begin again within itself
          obtain ⟨e, he⟩ := List.prefix_of_prefix_length_le (List.prefix_append _ _) hpre hle
          obtain ⟨t, ht⟩ := hpre
          rw [← he, List.append_assoc, List.append_cancel_left_eq, he] at ht
          cases e with
          | nil => exact h (by rw [← he, List.append_nil])
          | cons y e =>
              obtain rfl : y = d := (List.cons.inj ht).1
              have htail : body ++ y :: e = ds := (List.cons.inj he).2
              exact hd (htail ▸ List.mem_append_right body List.mem_cons_self)
      rw [List.cons_append] at hnot ⊢
      rw [before, if_neg hnot, ih fun hb => h (List.infix_cons hb)]

/-! ### Reading up to a delimiter -/

theorem readUntil_of_isInfix {delim buffer : List α} {chunks : List (List α)}
    (h : delim <:+: buffer ++ chunks.flatten) :
    ∃ buffer' rest, readUntil delim buffer chunks = some (buffer', rest) ∧
      delim <:+: buffer' ∧ buffer' ++ rest.flatten = buffer ++ chunks.flatten := by
  induction chunks generalizing buffer with
  | nil =>
      rw [List.flatten_nil, List.append_nil] at h
      exact ⟨buffer, [], if_pos h, h, rfl⟩
  | cons chunk chunks ih =>
      by_cases hbuffer : delim <:+: buffer
      · exact ⟨buffer, chunk :: chunks, if_pos hbuffer, hbuffer, rfl⟩
      · rw [List.flatten_cons, ← List.append_assoc] at h ⊢
        rw [readUntil, if_neg hbuffer]
        exact ih h

theorem readUntil_eq_none {delim buffer : List α} {chunks : List (List α)}
    (h : ¬delim <:+: buffer ++ chunks.flatten) : readUntil delim buffer chunks = none := by
  induction chunks generalizing buffer with
  | nil =>
      rw [List.flatten_nil, List.append_nil] at h
      exact if_neg h
  | cons chunk chunks ih =>
      have hbuffer : ¬delim <:+: buffer := fun hb => h (List.infix_append_of_infix_left hb)
      rw [List.flatten_cons, ← List.append_assoc] at h
      rw [readUntil, if_neg hbuffer]
      exact ih h

/-- Read until the delimiter is seen, and return what comes before it and the
chunks that are left. What the last chunk has after it is dropped. A stream
that ends first is read to its end, for nothing. -/
def readBody (delim : List α) (chunks : List (List α)) : List α × List (List α) :=
  match readUntil delim [] chunks with
  | none => ([], [])
  | some (buffer, rest) => (before delim buffer, rest)

/-- **A body is read back, and nothing is left,** exactly if the delimiter is not
in it. -/
theorem readBody_iff {d : α} {ds body : List α} {chunks : List (List α)} (hd : d ∉ ds)
    (h : chunks.flatten = body ++ d :: ds) :
    (readBody (d :: ds) chunks).1 = body ∧ (readBody (d :: ds) chunks).2.flatten = [] ↔
      ¬d :: ds <:+: body := by
  have hstream : d :: ds <:+: [] ++ chunks.flatten := by
    rw [h]
    exact ⟨body, [], List.append_nil _⟩
  obtain ⟨buffer, rest, hread, hbuffer, hflatten⟩ := readUntil_of_isInfix hstream
  rw [List.nil_append, h] at hflatten
  have hbefore : before (d :: ds) buffer = before (d :: ds) (body ++ d :: ds) := by
    rw [← hflatten, before_append hbuffer]
  rw [readBody, hread]
  dsimp only
  rw [hbefore]
  constructor
  · intro hbody hinside
    -- what is returned is shorter than the body by the delimiter inside
    have hpre := before_append_isPrefix hinside
    rw [← before_append hinside, hbody.1] at hpre
    exact absurd hpre.length_le (by simp)
  · intro hnot
    have hbody := before_append_self hd hnot
    refine ⟨hbody, ?_⟩
    -- the body and the delimiter are all there is
    have hpre := before_append_isPrefix hbuffer
    rw [hbefore, hbody] at hpre
    have hlength := congrArg List.length hflatten
    have hle := hpre.length_le
    rw [List.length_append] at hlength
    exact List.eq_nil_of_length_eq_zero (by omega)

end before

/-! ### Where a delimiter can lie -/

variable {delim : List α} {c : α}

/-- Behind a character that a delimiter can only end with, it begins anew. -/
theorem infix_append_iff_of_last (hc : c ∉ delim.dropLast) (a b : List α) :
    delim <:+: a ++ [c] ++ b ↔ delim <:+: a ++ [c] ∨ delim <:+: b := by
  rw [List.infix_append_iff, ← or_assoc]
  refine or_iff_left_of_imp ?_
  rintro ⟨l₁, l₂, rfl, hl₁, hl₂⟩
  -- a delimiter across `c` would have it before its end
  rcases List.suffix_concat_iff.mp hl₁ with rfl | ⟨t, rfl, -⟩
  · exact Or.inr hl₂.isInfix
  · by_cases hnil : l₂ = []
    · rw [hnil, List.append_nil]
      exact Or.inl hl₁.isInfix
    · rw [List.dropLast_append_of_ne_nil hnil] at hc
      exact absurd (by simp) hc

/-- A character that is not in the delimiter adds none. -/
theorem infix_concat_iff_of_notMem (hne : delim ≠ []) (hc : c ∉ delim) (a : List α) :
    delim <:+: a ++ [c] ↔ delim <:+: a := by
  rw [List.infix_concat_iff, List.suffix_concat_iff]
  refine or_iff_right_of_imp ?_
  rintro (hnil | ⟨t, rfl, -⟩)
  · exact absurd hnil hne
  · exact absurd (by simp) hc

/-- Lines that end with such a character hold a delimiter only if one of them does. -/
theorem infix_flatMap_append_iff {β : Type*} (hc : c ∉ delim.dropLast) (f : β → List α)
    (xs : List β) (b : List α) :
    delim <:+: xs.flatMap (fun x => f x ++ [c]) ++ b ↔
      (∃ x ∈ xs, delim <:+: f x ++ [c]) ∨ delim <:+: b := by
  induction xs with
  | nil => simp
  | cons x xs ih =>
      rw [List.flatMap_cons, List.append_assoc, infix_append_iff_of_last hc, ih,
        List.exists_mem_cons_iff, or_assoc]

end Chunks
