import Mathlib.Data.List.TakeWhile
import Mathlib.Data.Nat.Init

/-!
# Taproot.Library.Words

Splitting a text into **words** (maximal runs without a separator), into the
**lines** a line reader delivers (an unfinished last line counts, if it is not
empty), and into **frames** (the delimiter-terminated lines alone). All three
are `List.splitOnP` with a different treatment of the empty pieces, over an
arbitrary alphabet.

`words_eq_next` and `lines_eq_getline` tie the two readers to the stream
operations they stand for: reading one word, or one line, and going on with
what is left.
-/

namespace Words

variable {α : Type*}

/-! ### Words -/

section words

variable {sep : α → Bool}

/-- The words of a text, in order. -/
def words (sep : α → Bool) (l : List α) : List (List α) :=
  (l.splitOnP sep).filter fun w => !w.isEmpty

/-- A word: not empty, and without separators. -/
def IsWord (sep : α → Bool) (w : List α) : Prop :=
  w ≠ [] ∧ ∀ c ∈ w, sep c = false

@[simp] theorem words_nil : words sep ([] : List α) = [] := rfl

/-- A separator splits the words of a text. -/
theorem words_append_cons (a b : List α) {c : α} (hc : sep c = true) :
    words sep (a ++ c :: b) = words sep a ++ words sep b := by
  rw [words, List.splitOnP_append_cons a b hc, List.filter_append]
  rfl

theorem words_cons_sep (b : List α) {c : α} (hc : sep c = true) :
    words sep (c :: b) = words sep b := by
  simpa using words_append_cons [] b hc

theorem words_of_forall {w : List α} (h : ∀ c ∈ w, sep c = false) :
    words sep w = if w = [] then [] else [w] := by
  rw [words, List.splitOnP_eq_singleton h]
  cases w <;> rfl

theorem words_of_isWord {w : List α} (h : IsWord sep w) : words sep w = [w] := by
  rw [words_of_forall h.2, if_neg h.1]

/-- Splitting at the first separator: the pieces before it are plain. -/
theorem exists_first_sep {l : List α} (h : ∃ c ∈ l, sep c = true) :
    ∃ a c b, l = a ++ c :: b ∧ sep c = true ∧ ∀ x ∈ a, sep x = false := by
  induction l with
  | nil => obtain ⟨c, hc, -⟩ := h; exact absurd hc List.not_mem_nil
  | cons x l ih =>
      by_cases hx : sep x = true
      · exact ⟨[], x, l, rfl, hx, fun y hy => absurd hy List.not_mem_nil⟩
      · obtain ⟨c, hc, hcs⟩ := h
        have hc' : c ∈ l := by
          rcases List.mem_cons.mp hc with rfl | hc
          · exact absurd hcs hx
          · exact hc
        obtain ⟨a, c, b, rfl, hc, ha⟩ := ih ⟨c, hc', hcs⟩
        refine ⟨x :: a, c, b, rfl, hc, fun y hy => ?_⟩
        rcases List.mem_cons.mp hy with rfl | hy
        · simpa using hx
        · exact ha y hy

/-- Induction on a text, piece by piece: from the rest after a separator to the
whole. -/
theorem pieces_induction (sep : α → Bool) {P : List α → Prop}
    (plain : ∀ a, (∀ x ∈ a, sep x = false) → P a)
    (cut : ∀ a c b, (∀ x ∈ a, sep x = false) → sep c = true → P b → P (a ++ c :: b))
    (l : List α) : P l := by
  induction hn : l.length using Nat.strong_induction_on generalizing l with
  | _ n ih =>
      by_cases hsep : ∃ c ∈ l, sep c = true
      · obtain ⟨a, c, b, rfl, hc, ha⟩ := exists_first_sep hsep
        rw [List.length_append, List.length_cons] at hn
        exact cut a c b ha hc (ih b.length (by omega) b rfl)
      · refine plain l fun x hx => ?_
        by_contra hne
        exact hsep ⟨x, hx, by simpa using hne⟩

/-- Every word of a text is a word. -/
theorem isWord_of_mem_words {l w : List α} (h : w ∈ words sep l) : IsWord sep w := by
  have hplain : ∀ a : List α, (∀ x ∈ a, sep x = false) → w ∈ words sep a → IsWord sep w := by
    intro a ha hw
    rw [words_of_forall ha] at hw
    split at hw
    · exact absurd hw List.not_mem_nil
    · next hne => rw [List.mem_singleton.mp hw]; exact ⟨hne, ha⟩
  induction l using pieces_induction sep with
  | plain a ha => exact hplain a ha h
  | cut a c b ha hc ih =>
      rw [words_append_cons a b hc, List.mem_append] at h
      rcases h with h | h
      · exact hplain a ha h
      · exact ih h

/-- A text without words is all separators. -/
theorem words_eq_nil_iff {l : List α} : words sep l = [] ↔ ∀ c ∈ l, sep c = true := by
  constructor
  · intro h
    induction l with
    | nil => exact fun c hc => absurd hc List.not_mem_nil
    | cons x l ih =>
        have hx : sep x = true := by
          by_contra hx
          -- otherwise the first word would begin with `x`
          by_cases hsep : ∃ c ∈ x :: l, sep c = true
          · obtain ⟨a, c, b, hxl, hc, ha⟩ := exists_first_sep hsep
            rw [hxl, words_append_cons a b hc, words_of_forall ha, List.append_eq_nil_iff] at h
            have hane : a = [] := by
              by_contra hne
              rw [if_neg hne] at h
              exact absurd h.1 (by simp)
            subst hane
            obtain ⟨rfl, -⟩ := List.cons.inj hxl
            exact hx hc
          · have hl : ∀ c ∈ x :: l, sep c = false := fun c hc => by
              by_contra hne
              exact hsep ⟨c, hc, by simpa using hne⟩
            rw [words_of_forall hl] at h
            exact absurd h (by simp)
        intro c hc
        rcases List.mem_cons.mp hc with rfl | hc
        · exact hx
        · exact ih (by rwa [words_cons_sep l hx] at h) c hc
  · intro h
    induction l with
    | nil => rfl
    | cons x l ih =>
        rw [words_cons_sep l (h x List.mem_cons_self)]
        exact ih fun c hc => h c (List.mem_cons_of_mem x hc)

/-- The words of words joined by a separator are those words. -/
theorem words_intercalate {c : α} (hc : sep c = true) {ws : List (List α)}
    (h : ∀ w ∈ ws, IsWord sep w) : words sep ([c].intercalate ws) = ws := by
  induction ws with
  | nil => rfl
  | cons w ws ih =>
      cases ws with
      | nil => simpa using words_of_isWord (h w List.mem_cons_self)
      | cons w' ws' =>
          have hjoin :
              [c].intercalate (w :: w' :: ws') = w ++ c :: [c].intercalate (w' :: ws') := by
            simp [List.intercalate, List.intersperse]
          rw [hjoin, words_append_cons _ _ hc, words_of_isWord (h w List.mem_cons_self),
            ih fun x hx => h x (List.mem_cons_of_mem w hx)]
          rfl

/-- The words of a text are the text without its separators. -/
theorem flatten_words (l : List α) : (words sep l).flatten = l.filter fun c => !sep c := by
  have hplain : ∀ a : List α, (∀ x ∈ a, sep x = false) →
      (words sep a).flatten = a.filter fun c => !sep c := by
    intro a ha
    rw [List.filter_eq_self.mpr fun x hx => by simp [ha x hx], words_of_forall ha]
    split
    · next hnil => rw [hnil]; rfl
    · simp
  induction l using pieces_induction sep with
  | plain a ha => exact hplain a ha
  | cut a c b ha hc ih =>
      rw [words_append_cons a b hc, List.flatten_append, hplain a ha, ih, List.filter_append,
        List.filter_cons_of_neg (by simp [hc])]

/-- A character that is no separator goes to the last word, which may be empty
without it. -/
theorem words_concat (l : List α) {c : α} (hc : sep c = false) :
    ∃ ms l', words sep (l ++ [c]) = ms ++ [l' ++ [c]] ∧ words sep l = ms ++ words sep l' ∧
      ∀ x ∈ l', sep x = false := by
  induction l using pieces_induction sep with
  | plain a ha =>
      refine ⟨[], a, words_of_isWord ⟨by simp, fun x hx => ?_⟩, rfl, ha⟩
      rcases List.mem_append.mp hx with hx | hx
      · exact ha x hx
      · rw [List.mem_singleton.mp hx]; exact hc
  | cut a d b ha hd ih =>
      -- only what is behind the last separator grows
      obtain ⟨ms, l', hconcat, hwords, hl'⟩ := ih
      refine ⟨words sep a ++ ms, l', ?_, ?_, hl'⟩
      · rw [List.append_assoc, List.cons_append, words_append_cons a _ hd, hconcat,
          List.append_assoc]
      · rw [words_append_cons a b hd, hwords, List.append_assoc]

/-- Reading one word from a stream: skip separators, take the word, leave the
rest; `none` when only separators are left. -/
def next (sep : α → Bool) (l : List α) : Option (List α × List α) :=
  match l.dropWhile sep with
  | [] => none
  | c :: l' => some ((c :: l').takeWhile (!sep ·), (c :: l').dropWhile (!sep ·))

theorem words_dropWhile (l : List α) : words sep (l.dropWhile sep) = words sep l := by
  induction l with
  | nil => rfl
  | cons c l ih =>
      rw [List.dropWhile_cons]
      split
      · next hc => rw [ih, words_cons_sep l hc]
      · rfl

/-- `words` lists what reading word after word delivers. -/
theorem words_eq_next (l : List α) :
    words sep l = match next sep l with
      | none => []
      | some (w, rest) => w :: words sep rest := by
  rw [← words_dropWhile l, next]
  cases hd : l.dropWhile sep with
  | nil => rfl
  | cons c l' =>
      have hc : sep c = false := by
        have := List.head?_dropWhile_not sep l
        rw [hd] at this
        simpa using this
      set w := (c :: l').takeWhile (!sep ·) with hw
      have hword : IsWord sep w := by
        refine ⟨by simp [hw, hc], fun x hx => ?_⟩
        simpa using List.mem_takeWhile_imp hx
      have hsplit : c :: l' = w ++ (c :: l').dropWhile (!sep ·) :=
        (List.takeWhile_append_dropWhile).symm
      show words sep (c :: l') = w :: words sep ((c :: l').dropWhile (!sep ·))
      -- the word ends with the text, or at a separator
      cases hr : (c :: l').dropWhile (!sep ·) with
      | nil =>
          rw [hr, List.append_nil] at hsplit
          rw [hsplit, words_of_isWord hword]
          rfl
      | cons x r =>
          have hx : sep x = true := by
            have := List.head?_dropWhile_not (!sep ·) (c :: l')
            rw [hr] at this
            simpa using this
          rw [hsplit, hr, words_append_cons w r hx, words_of_isWord hword, words_cons_sep r hx]
          rfl

end words

/-! ### Lines and frames -/

section lines

variable {nl : α}

/-- A text whose last line is finished. -/
def Terminated (nl : α) (l : List α) : Prop := l = [] ∨ ∃ a, l = a ++ [nl]

theorem terminated_nil : Terminated nl ([] : List α) := Or.inl rfl

theorem terminated_concat (a : List α) : Terminated nl (a ++ [nl]) := Or.inr ⟨a, rfl⟩

theorem Terminated.append {a b : List α} (ha : Terminated nl a) (hb : Terminated nl b) :
    Terminated nl (a ++ b) := by
  rcases hb with rfl | ⟨b', rfl⟩
  · simpa using ha
  · exact Or.inr ⟨a ++ b', (List.append_assoc a b' [nl]).symm⟩

theorem terminated_flatMap {ι : Type*} (f : ι → List α) (xs : List ι) :
    Terminated nl (xs.flatMap fun x => f x ++ [nl]) := by
  induction xs with
  | nil => exact terminated_nil
  | cons x xs ih => exact (terminated_concat (f x)).append ih

variable [DecidableEq α]

/-- The lines a line reader delivers: what stands between the delimiters, and
what is left after the last one unless that is nothing. -/
def lines (nl : α) (l : List α) : List (List α) :=
  if (l.splitOn nl).getLast? = some [] then (l.splitOn nl).dropLast else l.splitOn nl

/-- The delimiter-terminated lines of a text. -/
def frames (nl : α) (l : List α) : List (List α) :=
  (l.splitOn nl).dropLast

@[simp] theorem lines_nil : lines nl ([] : List α) = [] := by simp [lines]

/-- What stands before a delimiter is split on its own. -/
theorem lines_append_cons (a b : List α) :
    lines nl (a ++ nl :: b) = a.splitOn nl ++ lines nl b := by
  have hb : b.splitOn nl ≠ [] := List.splitOn_ne_nil nl b
  -- whether the last line is empty is decided by `b`
  have hlast : (a.splitOn nl ++ b.splitOn nl).getLast? = (b.splitOn nl).getLast? := by
    rw [List.getLast?_append, List.getLast?_eq_some_getLast hb, Option.some_or]
  rw [lines, lines, List.splitOn_append_cons_self, hlast, List.dropLast_append_of_ne_nil hb]
  split <;> rfl

theorem lines_cons_line {a : List α} (ha : nl ∉ a) (b : List α) :
    lines nl (a ++ nl :: b) = a :: lines nl b := by
  rw [lines_append_cons, List.splitOn_eq_singleton ha]
  rfl

theorem lines_of_not_mem {a : List α} (ha : nl ∉ a) :
    lines nl a = if a = [] then [] else [a] := by
  rw [lines, List.splitOn_eq_singleton ha]
  cases a <;> rfl

/-- Text appended after a finished line starts a line of its own. -/
theorem Terminated.lines_append {a : List α} (ha : Terminated nl a) (b : List α) :
    lines nl (a ++ b) = lines nl a ++ lines nl b := by
  rcases ha with rfl | ⟨a', rfl⟩
  · simp
  · rw [List.append_assoc, List.singleton_append, lines_append_cons, lines_append_cons]
    simp

/-- Lines written one after the other are read one after the other. -/
theorem lines_flatMap {ι : Type*} {f : ι → List α} {xs : List ι} (h : ∀ x ∈ xs, nl ∉ f x) :
    lines nl (xs.flatMap fun x => f x ++ [nl]) = xs.map f := by
  induction xs with
  | nil => simp
  | cons x xs ih =>
      rw [List.flatMap_cons, List.append_assoc, List.singleton_append,
        lines_cons_line (h x List.mem_cons_self), ih fun y hy => h y (List.mem_cons_of_mem x hy)]
      rfl

/-- Lines with a delimiter between them are read back, but for an empty last one. -/
theorem lines_intercalate {ls : List (List α)} (h : ∀ l ∈ ls, nl ∉ l) :
    lines nl ([nl].intercalate ls) = if ls.getLast? = some [] then ls.dropLast else ls := by
  cases ls with
  | nil => exact lines_nil
  | cons l ls => rw [lines, List.splitOn_intercalate nl h (List.cons_ne_nil l ls)]

/-- Reading one line from a stream: take it, drop its delimiter; `none` at the
end of the stream. -/
def getline (nl : α) (l : List α) : Option (List α × List α) :=
  match l with
  | [] => none
  | c :: l' => some ((c :: l').takeWhile (· ≠ nl), ((c :: l').dropWhile (· ≠ nl)).tail)

theorem splitAt_delimiter (nl : α) (l : List α) :
    nl ∉ l.takeWhile (· ≠ nl) ∧
      (l = l.takeWhile (· ≠ nl) ∨
        l = l.takeWhile (· ≠ nl) ++ nl :: (l.dropWhile (· ≠ nl)).tail) := by
  have hnot : nl ∉ l.takeWhile (· ≠ nl) := fun h => by simpa using List.mem_takeWhile_imp h
  refine ⟨hnot, ?_⟩
  have hsplit : l.takeWhile (· ≠ nl) ++ l.dropWhile (· ≠ nl) = l := List.takeWhile_append_dropWhile
  cases hd : l.dropWhile (· ≠ nl) with
  | nil =>
      rw [hd, List.append_nil] at hsplit
      exact Or.inl hsplit.symm
  | cons c r =>
      have hc : c = nl := by
        have := List.head?_dropWhile_not (fun x => decide (x ≠ nl)) l
        rw [hd] at this
        simpa using this
      subst hc
      rw [hd] at hsplit
      exact Or.inr hsplit.symm

/-- `lines` lists what reading line after line delivers. -/
theorem lines_eq_getline (l : List α) :
    lines nl l = match getline nl l with
      | none => []
      | some (line, rest) => line :: lines nl rest := by
  cases l with
  | nil => simp [getline]
  | cons c l' =>
      obtain ⟨hnot, h⟩ := splitAt_delimiter nl (c :: l')
      show lines nl (c :: l') = (c :: l').takeWhile (· ≠ nl) ::
        lines nl ((c :: l').dropWhile (· ≠ nl)).tail
      rcases h with h | h
      · have hmem : nl ∉ c :: l' := h ▸ hnot
        have hdrop : (c :: l').dropWhile (· ≠ nl) = [] := by
          rw [List.dropWhile_eq_nil_iff]
          intro x hx
          simpa using fun hxn : x = nl => hmem (hxn ▸ hx)
        rw [hdrop, ← h, lines_of_not_mem hmem]
        simp
      · exact (congrArg (lines nl) h).trans (lines_cons_line hnot _)

theorem frames_of_not_mem {a : List α} (ha : nl ∉ a) : frames nl a = [] := by
  rw [frames, List.splitOn_eq_singleton ha]
  rfl

theorem frames_cons_line {a : List α} (ha : nl ∉ a) (b : List α) :
    frames nl (a ++ nl :: b) = a :: frames nl b := by
  rw [frames, List.splitOn_append_cons_self_of_not_mem ha,
    List.dropLast_cons_of_ne_nil (List.splitOn_ne_nil nl b)]
  rfl

/-- The first line is what a line reader delivers first. -/
theorem getline_line {a : List α} (ha : nl ∉ a) (b : List α) :
    getline nl (a ++ nl :: b) = some (a, b) := by
  have htake : (a ++ nl :: b).takeWhile (· ≠ nl) = a := by
    rw [List.takeWhile_append_of_pos fun x hx => by simpa using fun hxn : x = nl => ha (hxn ▸ hx)]
    simp
  have hdrop : (a ++ nl :: b).dropWhile (· ≠ nl) = nl :: b := by
    rw [List.dropWhile_append_of_pos fun x hx => by simpa using fun hxn : x = nl => ha (hxn ▸ hx)]
    simp
  cases h : a ++ nl :: b with
  | nil => exact absurd h (by simp)
  | cons c l => rw [getline, ← h, htake, hdrop]; rfl

/-- Without a delimiter all that is left is read. -/
theorem getline_of_not_mem {a : List α} (ha : nl ∉ a) (hne : a ≠ []) :
    getline nl a = some (a, []) := by
  have hpos : ∀ x ∈ a, decide (x ≠ nl) = true := fun x hx => by
    simpa using fun hxn : x = nl => ha (hxn ▸ hx)
  cases a with
  | nil => exact absurd rfl hne
  | cons c l =>
      rw [getline, List.takeWhile_eq_self_iff.mpr hpos, List.dropWhile_eq_nil_iff.mpr hpos]
      rfl

/-- A text is cut at its first delimiter. -/
theorem exists_first_delimiter {l : List α} (h : nl ∈ l) :
    ∃ a b, l = a ++ nl :: b ∧ nl ∉ a := by
  obtain ⟨hnot, hl | hl⟩ := splitAt_delimiter nl l
  · exact absurd (hl ▸ h) hnot
  · exact ⟨_, _, hl, hnot⟩

/-! ### Cutting a text -/

omit [DecidableEq α] in
theorem prefix_append_cons {a b t : List α} {c : α} (h : t <+: a ++ c :: b) :
    t <+: a ∨ ∃ t', t = a ++ c :: t' ∧ t' <+: b := by
  rcases List.prefix_or_prefix_of_prefix h (List.prefix_append a (c :: b)) with ht | ⟨u, rfl⟩
  · exact Or.inl ht
  · rw [List.prefix_append_right_inj] at h
    cases u with
    | nil => exact Or.inl (by simp)
    | cons d u =>
        obtain ⟨rfl, hu⟩ := List.cons_prefix_cons.mp h
        exact Or.inr ⟨u, rfl, hu⟩

omit [DecidableEq α] in
/-- Lines that are cut off somewhere: the lines before the cut, and the torn one. -/
theorem prefix_flatMap_lines {ι : Type*} {f : ι → List α} {xs : List ι} {p : List α}
    (h : p <+: xs.flatMap fun x => f x ++ [nl]) :
    ∃ ys t, ys <+: xs ∧ (p = (ys.flatMap fun x => f x ++ [nl]) ++ t) ∧
      (t = [] ∨ ∃ x zs, xs = ys ++ x :: zs ∧ t <+: f x) := by
  induction xs generalizing p with
  | nil => exact ⟨[], [], List.prefix_refl _, List.prefix_nil.mp h, Or.inl rfl⟩
  | cons x xs ih =>
      rw [List.flatMap_cons, List.append_assoc, List.singleton_append] at h
      -- the cut is in the first line, or behind it
      rcases prefix_append_cons h with hx | ⟨p', rfl, hp'⟩
      · exact ⟨[], p, List.nil_prefix, rfl, Or.inr ⟨x, xs, rfl, hx⟩⟩
      · obtain ⟨ys, t, hys, rfl, ht⟩ := ih hp'
        refine ⟨x :: ys, t, List.cons_prefix_cons.mpr ⟨rfl, hys⟩, by simp, ht.imp id ?_⟩
        rintro ⟨y, zs, rfl, hy⟩
        exact ⟨y, zs, rfl, hy⟩

/-! ### The extent of lines -/

/-- The length of lines, each with its delimiter. -/
def extent : List (List α) → Nat
  | [] => 0
  | l :: ls => l.length + 1 + extent ls

omit [DecidableEq α] in
theorem extent_append (ls ls' : List (List α)) : extent (ls ++ ls') = extent ls + extent ls' := by
  induction ls with
  | nil => simp [extent]
  | cons l ls ih => rw [List.cons_append, extent, extent, ih]; omega

omit [DecidableEq α] in
/-- Words and a separator after each are no more than the text and one separator. -/
theorem extent_words_le {sep : α → Bool} (l : List α) : extent (words sep l) ≤ l.length + 1 := by
  have hplain : ∀ a : List α, (∀ x ∈ a, sep x = false) → extent (words sep a) ≤ a.length + 1 := by
    intro a ha
    rw [words_of_forall ha]
    split <;> simp [extent]
  induction l using pieces_induction sep with
  | plain a ha => exact hplain a ha
  | cut a c b ha hc ih =>
      have hle := hplain a ha
      rw [words_append_cons a b hc, extent_append, List.length_append, List.length_cons]
      omega

omit [DecidableEq α] in
theorem extent_eq_zero {ls : List (List α)} (h : extent ls = 0) : ls = [] := by
  cases ls with
  | nil => rfl
  | cons l ls => rw [extent] at h; omega

/-- A character more in front of a delimiter is one more in the frames. -/
theorem extent_frames_cons (c : α) {l : List α} (h : nl ∈ c :: l) :
    extent (frames nl (c :: l)) = extent (frames nl l) + 1 := by
  -- a delimiter is an empty frame, anything else is one more in the first frame
  by_cases hc : c = nl
  · subst hc
    have hline : frames c (c :: l) = [] :: frames c l :=
      frames_cons_line (a := []) List.not_mem_nil l
    rw [hline, extent, List.length_nil]
    omega
  · obtain ⟨a, b, rfl, ha⟩ := exists_first_delimiter (List.mem_of_ne_of_mem (Ne.symm hc) h)
    have hline : frames nl (c :: (a ++ nl :: b)) = (c :: a) :: frames nl b :=
      frames_cons_line (a := c :: a) (by simp [Ne.symm hc, ha]) b
    rw [hline, frames_cons_line ha, extent, extent, List.length_cons]
    omega

theorem extent_frames_append_le (a b : List α) :
    extent (frames nl b) ≤ extent (frames nl (a ++ b)) := by
  induction a with
  | nil => exact Nat.le_refl _
  | cons c a ih =>
      by_cases h : nl ∈ c :: (a ++ b)
      · rw [List.cons_append, extent_frames_cons c h]
        omega
      · have hb : nl ∉ b := fun hb => h (List.mem_cons_of_mem c (List.mem_append_right a hb))
        rw [frames_of_not_mem hb]
        exact Nat.zero_le _

/-- What is cut off in front of a delimiter is missing from the frames. -/
theorem extent_frames_append_lt {a b : List α} (ha : a ≠ []) (h : nl ∈ a ++ b) :
    extent (frames nl b) < extent (frames nl (a ++ b)) := by
  obtain ⟨c, a, rfl⟩ := List.exists_cons_of_ne_nil ha
  have hmem : nl ∈ c :: (a ++ b) := h
  rw [List.cons_append, extent_frames_cons c hmem]
  exact Nat.lt_succ_of_le (extent_frames_append_le a b)

end lines

end Words
