import Mathlib.Data.List.TakeWhile

/-!
# Taproot.Library.Numerals

Reading a **numeral** at the start of a text: white space, a sign, and as many
digits as there are.

A `Numeral` is what has been read, with the kinds of its characters as fields;
`scan` is the reader. It reads the numeral that the text starts with and that no
further digit follows (`scan_eq_some_iff`); there is at most one. All this is over
an arbitrary alphabet in which no character is of two kinds (`Charset`).
-/

namespace Numerals

/-- The characters that numerals are written with. -/
structure Charset (α : Type*) where
  space : α → Bool
  digit : α → Bool
  plus : α
  minus : α
  space_of_digit : ∀ c, digit c = true → space c = false
  space_plus : space plus = false
  space_minus : space minus = false
  digit_plus : digit plus = false
  digit_minus : digit minus = false
  plus_ne_minus : plus ≠ minus

/-- The sign of a numeral, if it has one. -/
inductive Sign
  | absent
  | plus
  | minus
  deriving DecidableEq, Repr

variable {α : Type*} {A : Charset α}

/-- A sign, as it is written. -/
def Charset.sign (A : Charset α) : Sign → List α
  | .absent => []
  | .plus => [A.plus]
  | .minus => [A.minus]

/-- A numeral, with the white space before it. -/
@[ext] structure Numeral (A : Charset α) where
  spaces : List α
  sign : Sign
  digits : List α
  space_of_mem : ∀ c ∈ spaces, A.space c = true
  digit_of_mem : ∀ c ∈ digits, A.digit c = true
  digits_ne_nil : digits ≠ []

/-- A numeral, as it is written. -/
def Numeral.text (x : Numeral A) : List α := x.spaces ++ (A.sign x.sign ++ x.digits)

/-- Digits alone, without a sign. -/
def unsigned (digits : List α) (h : ∀ c ∈ digits, A.digit c = true) (hne : digits ≠ []) :
    Numeral A where
  spaces := []
  sign := .absent
  digits := digits
  space_of_mem := fun _ hc => absurd hc List.not_mem_nil
  digit_of_mem := h
  digits_ne_nil := hne

@[simp] theorem text_unsigned (digits : List α) (h : ∀ c ∈ digits, A.digit c = true)
    (hne : digits ≠ []) : (unsigned digits h hne).text = digits := rfl

/-- The text does not go on with a digit. -/
def Ends (A : Charset α) (rest : List α) : Prop := ∀ c, rest.head? = some c → A.digit c = false

theorem ends_nil : Ends A [] := fun _ h => absurd h (by simp)

theorem ends_cons {c : α} {rest : List α} : Ends A (c :: rest) ↔ A.digit c = false := by
  simp [Ends]

/-! ### Maximal munch -/

/-- A run of characters of one kind is taken whole, if the text goes on with another. -/
theorem span_append {p : α → Bool} {run rest : List α} (hrun : ∀ c ∈ run, p c = true)
    (hrest : ∀ c, rest.head? = some c → p c = false) :
    (run ++ rest).takeWhile p = run ∧ (run ++ rest).dropWhile p = rest := by
  rw [List.takeWhile_append_of_pos hrun, List.dropWhile_append_of_pos hrun]
  cases rest with
  | nil => simp
  | cons c rest => simp [hrest c rfl]

/-- What follows the white space of a numeral is no white space. -/
theorem space_head (s : Sign) {d : α} (hd : A.digit d = true) (l : List α) :
    ∀ c, (A.sign s ++ d :: l).head? = some c → A.space c = false := by
  intro c hc
  cases s with
  | absent => rw [← Option.some.inj hc]; exact A.space_of_digit d hd
  | plus => rw [← Option.some.inj hc]; exact A.space_plus
  | minus => rw [← Option.some.inj hc]; exact A.space_minus

/-! ### The scanner -/

variable [DecidableEq α]

/-- Read a sign, if there is one. -/
def readSign (A : Charset α) : List α → Sign × List α
  | [] => (.absent, [])
  | c :: l =>
    if c = A.minus then (.minus, l)
    else if c = A.plus then (.plus, l)
    else (.absent, c :: l)

/-- Read a numeral, and return what is left. -/
def scan (A : Charset α) (l : List α) : Option (Numeral A × List α) :=
  let body := readSign A (l.dropWhile A.space)
  if h : body.2.takeWhile A.digit = [] then none
  else some ({
    spaces := l.takeWhile A.space
    sign := body.1
    digits := body.2.takeWhile A.digit
    space_of_mem := fun _ hc => List.mem_takeWhile_imp hc
    digit_of_mem := fun _ hc => List.mem_takeWhile_imp hc
    digits_ne_nil := h }, body.2.dropWhile A.digit)

theorem scan_of_eq_nil (A : Charset α) {l : List α}
    (h : (readSign A (l.dropWhile A.space)).2.takeWhile A.digit = []) : scan A l = none :=
  dif_pos h

theorem scan_of_ne_nil (A : Charset α) {l : List α}
    (h : (readSign A (l.dropWhile A.space)).2.takeWhile A.digit ≠ []) :
    ∃ x : Numeral A,
      scan A l = some (x, (readSign A (l.dropWhile A.space)).2.dropWhile A.digit) ∧
      x.sign = (readSign A (l.dropWhile A.space)).1 ∧
      x.digits = (readSign A (l.dropWhile A.space)).2.takeWhile A.digit :=
  ⟨_, dif_neg h, rfl, rfl⟩

theorem sign_readSign (A : Charset α) (l : List α) :
    A.sign (readSign A l).1 ++ (readSign A l).2 = l := by
  cases l with
  | nil => rfl
  | cons c l =>
      rw [readSign]
      split
      · next hminus => rw [hminus]; rfl
      · split
        · next hplus => rw [hplus]; rfl
        · rfl

theorem readSign_fst_eq_minus_iff (A : Charset α) (l : List α) :
    (readSign A l).1 = .minus ↔ l.head? = some A.minus := by
  cases l with
  | nil => simp [readSign]
  | cons c l =>
      rw [readSign, List.head?_cons, Option.some.injEq]
      split
      · next hminus => exact iff_of_true rfl hminus
      · next hminus => split <;> exact iff_of_false (by simp) hminus

theorem readSign_snd (A : Charset α) (l : List α) : (readSign A l).2 =
    if l.head? = some A.minus ∨ l.head? = some A.plus then l.tail else l := by
  cases l with
  | nil => rfl
  | cons c l =>
      rw [readSign]
      split
      · next hminus => exact (if_pos (Or.inl (congrArg some hminus))).symm
      · next hminus =>
          split
          · next hplus => exact (if_pos (Or.inr (congrArg some hplus))).symm
          · next hplus =>
              have hsign : ¬((c :: l).head? = some A.minus ∨ (c :: l).head? = some A.plus) := by
                intro h
                cases h with
                | inl h => exact hminus (Option.some.inj h)
                | inr h => exact hplus (Option.some.inj h)
              rw [if_neg hsign]

/-- A sign before digits is read as that sign. -/
theorem readSign_sign (s : Sign) {c : α} (hc : A.digit c = true) (l : List α) :
    readSign A (A.sign s ++ c :: l) = (s, c :: l) := by
  cases s with
  | absent =>
      have hminus : c ≠ A.minus := by
        intro heq
        rw [heq, A.digit_minus] at hc
        exact absurd hc Bool.false_ne_true
      have hplus : c ≠ A.plus := by
        intro heq
        rw [heq, A.digit_plus] at hc
        exact absurd hc Bool.false_ne_true
      show readSign A (c :: l) = _
      rw [readSign, if_neg hminus, if_neg hplus]
  | plus =>
      show readSign A (A.plus :: c :: l) = _
      rw [readSign, if_neg A.plus_ne_minus, if_pos rfl]
  | minus =>
      show readSign A (A.minus :: c :: l) = _
      rw [readSign, if_pos rfl]

/-- A numeral that no further digit follows is read whole. -/
theorem scan_append (x : Numeral A) {rest : List α} (hrest : Ends A rest) :
    scan A (x.text ++ rest) = some (x, rest) := by
  -- the first digit ends the white space and the sign, what follows ends the digits
  obtain ⟨d, ds, hdigits⟩ := List.exists_cons_of_ne_nil x.digits_ne_nil
  have hd : A.digit d = true := x.digit_of_mem d (hdigits ▸ List.mem_cons_self)
  have htext : x.text ++ rest = x.spaces ++ (A.sign x.sign ++ d :: (ds ++ rest)) := by
    rw [Numeral.text, hdigits]
    simp
  obtain ⟨hspaces, hbody⟩ := span_append x.space_of_mem (space_head x.sign hd (ds ++ rest))
  rw [← htext] at hspaces hbody
  have hsign : readSign A ((x.text ++ rest).dropWhile A.space) = (x.sign, x.digits ++ rest) := by
    rw [hbody, readSign_sign x.sign hd, hdigits]
    rfl
  obtain ⟨htake, hdrop⟩ := span_append x.digit_of_mem hrest
  have hne : (readSign A ((x.text ++ rest).dropWhile A.space)).2.takeWhile A.digit ≠ [] := by
    rw [hsign, htake]
    exact x.digits_ne_nil
  rw [scan, dif_neg hne]
  refine congrArg some (Prod.ext (Numeral.ext hspaces ?_ ?_) ?_)
  · exact congrArg Prod.fst hsign
  · exact (congrArg (fun b => b.2.takeWhile A.digit) hsign).trans htake
  · exact (congrArg (fun b => b.2.dropWhile A.digit) hsign).trans hdrop

/-- What is read stands at the start of the text, and no further digit follows. -/
theorem scan_sound {l rest : List α} {x : Numeral A} (h : scan A l = some (x, rest)) :
    l = x.text ++ rest ∧ Ends A rest := by
  rw [scan] at h
  split at h
  · exact absurd h (by simp)
  · next hne =>
      obtain ⟨rfl, rfl⟩ := Prod.mk.inj (Option.some.inj h)
      refine ⟨?_, fun c hc => ?_⟩
      · rw [Numeral.text, List.append_assoc, List.append_assoc, List.takeWhile_append_dropWhile,
          sign_readSign, List.takeWhile_append_dropWhile]
      · have hhead := List.head?_dropWhile_not A.digit
          (readSign A (l.dropWhile A.space)).2
        rw [hc] at hhead
        simpa using hhead

/-- **What the scanner reads.** -/
theorem scan_eq_some_iff {l rest : List α} {x : Numeral A} :
    scan A l = some (x, rest) ↔ l = x.text ++ rest ∧ Ends A rest := by
  constructor
  · exact scan_sound
  · intro h
    rw [h.1]
    exact scan_append x h.2

end Numerals
