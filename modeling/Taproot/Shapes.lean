import Taproot.Tokens

/-!
# Taproot.Shapes

The **shapes** of tokens, and how a token reads when it is printed and
tokenized again.

A token is bare (no whitespace; possibly empty, and possibly starting with a
quotation mark, since the marks of a one-word token are taken off) or a phrase:
two or more words joined by single spaces, starting with a quotation mark and
closed by the first word that ends with one. Only the last token can be a
phrase that nothing closes (`shaped_tokens`).

Read back, a phrase is itself and so is a plain word; a bare token that starts
with a quotation mark loses its first and last character, or swallows what
follows it on the line, and an empty token is not there any more.
-/

namespace Taproot

/-- A word of the input. -/
abbrev IsWord (w : Bytes) : Prop := Words.IsWord isspace w

/-- No whitespace. -/
def Bare (t : Bytes) : Prop := ∀ c ∈ t, isspace c = false

/-- A word that does not start with a quotation mark. -/
def PlainWord (t : Bytes) : Prop := IsWord t ∧ opens t = false

/-- The words `w, ms…, l` make a phrase: it starts with a quotation mark, and
no word before the last ends with one. -/
structure IsPhrase (w : Bytes) (ms : List Bytes) (l : Bytes) : Prop where
  isWord : ∀ x ∈ w :: (ms ++ [l]), IsWord x
  opens : opens w = true
  inner : ∀ x ∈ w :: ms, closes x = false

/-- Words joined by single spaces. -/
def joined (ws : List Bytes) : Bytes := [SPACE].intercalate ws

/-- A phrase that its last word closes. -/
def ClosedPhrase (t : Bytes) : Prop :=
  ∃ w ms l, IsPhrase w ms l ∧ closes l = true ∧ t = joined (w :: (ms ++ [l]))

/-- A phrase that nothing closes. -/
def OpenPhrase (t : Bytes) : Prop :=
  ∃ w ms l, IsPhrase w ms l ∧ closes l = false ∧ t = joined (w :: (ms ++ [l]))

/-- The shape of a token with more tokens after it. -/
def KeyShape (t : Bytes) : Prop := Bare t ∨ ClosedPhrase t

/-- The shape of the last token. -/
def TokenShape (t : Bytes) : Prop := KeyShape t ∨ OpenPhrase t

/-- The shapes of all tokens of one input. -/
inductive Shaped : List Bytes → Prop
  | nil : Shaped []
  | last {t : Bytes} : TokenShape t → Shaped [t]
  | cons {t : Bytes} {ts : List Bytes} : KeyShape t → Shaped ts → Shaped (t :: ts)

/-! ### Joined words -/

@[simp] theorem joined_singleton (w : Bytes) : joined [w] = w := by simp [joined]

theorem joined_cons {ws : List Bytes} (w : Bytes) (h : ws ≠ []) :
    joined (w :: ws) = w ++ SPACE :: joined ws := by
  cases ws with
  | nil => exact absurd rfl h
  | cons x ws => simp [joined, List.intercalate, List.intersperse]

theorem joined_concat {ws : List Bytes} (h : ws ≠ []) (x : Bytes) :
    joined (ws ++ [x]) = joined ws ++ SPACE :: x := by
  induction ws with
  | nil => exact absurd rfl h
  | cons w ws ih =>
      cases ws with
      | nil => rw [List.cons_append, List.nil_append, joined_cons w (by simp)]; simp
      | cons y ws =>
          rw [List.cons_append, joined_cons w (by simp), ih (by simp), joined_cons w (by simp)]
          simp

theorem words_joined {ws : List Bytes} (h : ∀ w ∈ ws, IsWord w) : words (joined ws) = ws :=
  Words.words_intercalate isspace_SPACE h

theorem words_joined_cons (t : Bytes) {ts : List Bytes} (h : ts ≠ []) :
    words (joined (t :: ts)) = words t ++ words (joined ts) := by
  rw [joined_cons t h]
  exact Words.words_append_cons t _ isspace_SPACE

/-- What is joined is read piece by piece. -/
theorem words_joined_eq_flatMap (ts : List Bytes) : words (joined ts) = ts.flatMap words := by
  induction ts with
  | nil => rfl
  | cons t ts ih =>
      by_cases hts : ts = []
      · rw [hts, joined_singleton, List.flatMap_cons, List.flatMap_nil, List.append_nil]
      · rw [words_joined_cons t hts, ih, List.flatMap_cons]

theorem space_mem_joined {w : Bytes} {ms : List Bytes} {l : Bytes} :
    SPACE ∈ joined (w :: (ms ++ [l])) := by
  rw [joined_cons w (by simp)]
  simp

theorem opens_append {w : Bytes} (h : w ≠ []) (b : Bytes) : opens (w ++ b) = opens w := by
  cases w with
  | nil => exact absurd rfl h
  | cons c w => rfl

theorem closes_append {l : Bytes} (h : l ≠ []) (b : Bytes) : closes (b ++ l) = closes l := by
  rw [closes, closes, List.getLast?_append, List.getLast?_eq_some_getLast h, Option.some_or]

theorem closes_cons {l : Bytes} (h : l ≠ []) (c : UInt8) : closes (c :: l) = closes l :=
  closes_append h [c]

theorem IsPhrase.opens_joined {w l : Bytes} {ms : List Bytes} (h : IsPhrase w ms l) :
    Taproot.opens (joined (w :: (ms ++ [l]))) = true := by
  rw [joined_cons w (by simp), opens_append (h.isWord w List.mem_cons_self).1]
  exact h.opens

theorem IsPhrase.closes_joined {w l : Bytes} {ms : List Bytes} (h : IsPhrase w ms l) :
    closes (joined (w :: (ms ++ [l]))) = closes l := by
  have hl : l ≠ [] := (h.isWord l (by simp)).1
  rw [← List.cons_append, joined_concat (by simp), closes_append (by simp), closes_cons hl]

/-! ### The shapes of tokens -/

theorem Bare.isWord {t : Bytes} (h : Bare t) (hne : t ≠ []) : IsWord t := ⟨hne, h⟩

theorem Bare.space_notMem {t : Bytes} (h : Bare t) : SPACE ∉ t := fun hmem => by
  simpa using h SPACE hmem

theorem unquoted_of_bare {t : Bytes} (h : Bare t) : unquoted t = t.tail.dropLast :=
  if_neg h.space_notMem

theorem unquoted_of_space_mem {t : Bytes} (h : SPACE ∈ t) : unquoted t = t := if_pos h

theorem bare_unquoted {t : Bytes} (h : Bare t) : Bare (unquoted t) := by
  rw [unquoted_of_bare h]
  exact fun c hc => h c (List.mem_of_mem_tail (List.dropLast_subset _ hc))

/-! ### How words make tokens -/

/-- The tokens that words make, in order: plain words, words in quotation marks
of their own, and phrases. The last two are what the input can end in. -/
inductive Grouped : List Bytes → List Bytes → Prop
  | nil : Grouped [] []
  | plain {w : Bytes} {ts ws : List Bytes} : PlainWord w → Grouped ts ws →
      Grouped (w :: ts) ([w] ++ ws)
  | quoted {w : Bytes} {ts ws : List Bytes} : IsWord w → opens w = true → closes w = true →
      Grouped ts ws → Grouped (unquoted w :: ts) ([w] ++ ws)
  | phrase {w l : Bytes} {ms ts ws : List Bytes} : IsPhrase w ms l → closes l = true →
      Grouped ts ws → Grouped (joined (w :: (ms ++ [l])) :: ts) ((w :: (ms ++ [l])) ++ ws)
  | cutWord {w : Bytes} : IsWord w → opens w = true → closes w = false →
      Grouped [unquoted w] [w]
  | cutPhrase {w l : Bytes} {ms : List Bytes} : IsPhrase w ms l → closes l = false →
      Grouped [joined (w :: (ms ++ [l]))] (w :: (ms ++ [l]))

/-- The phrase in progress when the input ends. -/
theorem grouped_unquoted_joined {w : Bytes} {ms : List Bytes} (hword : ∀ x ∈ w :: ms, IsWord x)
    (hopen : opens w = true) (hinner : ∀ x ∈ w :: ms, closes x = false) :
    Grouped [unquoted (joined (w :: ms))] (w :: ms) := by
  rcases List.eq_nil_or_concat ms with rfl | ⟨ms', l, rfl⟩
  · rw [joined_singleton]
    exact .cutWord (hword w List.mem_cons_self) hopen (hinner w List.mem_cons_self)
  · rw [List.concat_eq_append] at hword hinner ⊢
    rw [unquoted_of_space_mem space_mem_joined]
    refine .cutPhrase ⟨hword, hopen, fun x hx => hinner x ?_⟩ (hinner l (by simp))
    rcases List.mem_cons.mp hx with rfl | hx
    · exact List.mem_cons_self
    · exact List.mem_cons_of_mem w (List.mem_append_left _ hx)

/-- `group` makes tokens of words in these ways; the second half is about a
phrase in progress. -/
theorem grouped_group {ws : List Bytes} (hws : ∀ w ∈ ws, IsWord w) :
    Grouped (group none ws) ws ∧
      ∀ w ms, (∀ x ∈ w :: ms, IsWord x) → opens w = true → (∀ x ∈ w :: ms, closes x = false) →
        Grouped (group (some (joined (w :: ms))) ws) ((w :: ms) ++ ws) := by
  induction ws with
  | nil =>
      refine ⟨.nil, fun w ms hword hopen hinner => ?_⟩
      rw [List.append_nil]
      exact grouped_unquoted_joined hword hopen hinner
  | cons x ws ih =>
      have hx : IsWord x := hws x List.mem_cons_self
      obtain ⟨ihnone, ihsome⟩ := ih fun w hw => hws w (List.mem_cons_of_mem x hw)
      -- no phrase is in progress, and then one that the words so far have begun
      constructor
      · rw [group]
        split
        · next ho =>
            split
            · next hc => exact .quoted hx ho hc ihnone
            · next hc =>
                have hsome := ihsome x [] (by simpa using hx) ho (by simpa using hc)
                rwa [joined_singleton] at hsome
        · next ho => exact .plain ⟨hx, by simpa using ho⟩ ihnone
      · intro w ms hword hopen hinner
        have hword' : ∀ y ∈ w :: (ms ++ [x]), IsWord y := by
          intro y hy
          rw [← List.cons_append, List.mem_append, List.mem_singleton] at hy
          rcases hy with hy | rfl
          · exact hword y hy
          · exact hx
        have hjoin : joined (w :: ms) ++ SPACE :: x = joined (w :: (ms ++ [x])) := by
          rw [← List.cons_append, joined_concat (by simp)]
        have hsplit : (w :: ms) ++ x :: ws = (w :: (ms ++ [x])) ++ ws := by simp
        rw [group, hjoin, hsplit]
        split
        · next hc =>
            rw [unquoted_of_space_mem space_mem_joined]
            exact .phrase ⟨hword', hopen, hinner⟩ hc ihnone
        · next hc =>
            refine ihsome w (ms ++ [x]) hword' hopen fun y hy => ?_
            rw [← List.cons_append, List.mem_append, List.mem_singleton] at hy
            rcases hy with hy | rfl
            · exact hinner y hy
            · simpa using hc

theorem grouped_tokens (s : Bytes) : Grouped (tokens s) (words s) :=
  (grouped_group fun _ hw => Words.isWord_of_mem_words hw).1

/-- The tokens that words make are shaped. -/
theorem Grouped.shaped {ts ws : List Bytes} (h : Grouped ts ws) : Shaped ts := by
  induction h with
  | nil => exact .nil
  | plain hw _ ih => exact .cons (Or.inl hw.1.2) ih
  | quoted hw _ _ _ ih => exact .cons (Or.inl (bare_unquoted hw.2)) ih
  | phrase hp hc _ ih => exact .cons (Or.inr ⟨_, _, _, hp, hc, rfl⟩) ih
  | cutWord hw _ _ => exact .last (Or.inl (Or.inl (bare_unquoted hw.2)))
  | cutPhrase hp hc => exact .last (Or.inr ⟨_, _, _, hp, hc, rfl⟩)

theorem shaped_tokens (s : Bytes) : Shaped (tokens s) := (grouped_tokens s).shaped

theorem Shaped.tokenShape {ts : List Bytes} (h : Shaped ts) : ∀ t ∈ ts, TokenShape t := by
  induction h with
  | nil => exact fun t ht => absurd ht List.not_mem_nil
  | last ht => intro t hmem; rwa [List.mem_singleton.mp hmem]
  | cons ht _ ih =>
      intro t hmem
      rcases List.mem_cons.mp hmem with rfl | hmem
      · exact Or.inl ht
      · exact ih t hmem

theorem Shaped.tail {t : Bytes} {ts : List Bytes} (h : Shaped (t :: ts)) : Shaped ts := by
  cases h with
  | last _ => exact .nil
  | cons _ hts => exact hts

/-- Every token but the last has the shape of a key. -/
theorem Shaped.keyShape {t u : Bytes} {ts : List Bytes} (h : Shaped (t :: u :: ts)) :
    KeyShape t := by
  cases h with
  | cons ht _ => exact ht

/-- The only whitespace in a token is single spaces between words. -/
theorem TokenShape.newline_notMem {t : Bytes} (h : TokenShape t) : NEWLINE ∉ t := by
  have hjoined : ∀ ws : List Bytes, (∀ w ∈ ws, IsWord w) → NEWLINE ∉ joined ws := by
    intro ws hws hmem
    induction ws with
    | nil => exact absurd hmem List.not_mem_nil
    | cons w ws ih =>
        have hw : NEWLINE ∉ w := fun hc => by
          simpa using (hws w List.mem_cons_self).2 NEWLINE hc
        cases ws with
        | nil => exact hw (by simpa using hmem)
        | cons x ws =>
            rw [joined_cons w (by simp), List.mem_append, List.mem_cons] at hmem
            rcases hmem with hmem | hmem | hmem
            · exact hw hmem
            · exact absurd hmem (by decide)
            · exact ih (fun y hy => hws y (List.mem_cons_of_mem w hy)) hmem
  rcases h with (h | ⟨w, ms, l, hp, -, rfl⟩) | ⟨w, ms, l, hp, -, rfl⟩
  · exact fun hmem => by simpa using h NEWLINE hmem
  · exact hjoined _ hp.isWord
  · exact hjoined _ hp.isWord

/-! ### Plain words -/

/-- Not empty, no whitespace, no quotation marks. -/
def Plain (t : Bytes) : Prop := t ≠ [] ∧ ∀ c ∈ t, isspace c = false ∧ c ≠ DELIMITER

instance (t : Bytes) : Decidable (Plain t) :=
  haveI : Decidable (∀ c ∈ t, isspace c = false ∧ c ≠ DELIMITER) := List.decidableBAll _ t
  inferInstanceAs (Decidable (t ≠ [] ∧ ∀ c ∈ t, isspace c = false ∧ c ≠ DELIMITER))

theorem Plain.plainWord {t : Bytes} (h : Plain t) : PlainWord t := by
  refine ⟨⟨h.1, fun c hc => (h.2 c hc).1⟩, ?_⟩
  cases t with
  | nil => exact absurd rfl h.1
  | cons c t => simpa [opens] using (h.2 c List.mem_cons_self).2

theorem Plain.keyShape {t : Bytes} (h : Plain t) : KeyShape t := Or.inl h.plainWord.1.2

/-! ### Reading a printed token back -/

/-- A token as it reads where it is printed, if it reads as one token. -/
def reread (t : Bytes) : Bytes := if opens t then unquoted t else t

/-- Printed before another token, `t` reads as one token of its own. -/
def Readable (t : Bytes) : Prop := t ≠ [] ∧ (opens t = true → closes t = true)

theorem words_bare {t : Bytes} (h : Bare t) : words t = if t = [] then [] else [t] :=
  Words.words_of_forall h

/-- Words that do not close a phrase are added to it. -/
theorem group_some_append {b : Bytes} {ms : List Bytes} (hms : ∀ x ∈ ms, closes x = false)
    (l : Bytes) (rest : List Bytes) :
    group (some b) (ms ++ l :: rest) =
      group (some (b ++ ms.flatMap fun x => SPACE :: x)) (l :: rest) := by
  induction ms generalizing b with
  | nil => simp
  | cons x ms ih =>
      rw [List.cons_append, group, if_neg (by simp [hms x List.mem_cons_self]),
        ih fun y hy => hms y (List.mem_cons_of_mem x hy)]
      simp

theorem joined_eq_flatMap (w : Bytes) (ms : List Bytes) :
    joined (w :: ms) = w ++ ms.flatMap fun x => SPACE :: x := by
  induction ms generalizing w with
  | nil => simp
  | cons x ms ih => rw [joined_cons w (by simp), ih]; simp

/-- The words of a phrase make one token, which goes on if nothing closed it. -/
theorem IsPhrase.group_eq {w l : Bytes} {ms : List Bytes} (h : IsPhrase w ms l)
    (rest : List Bytes) :
    group none (w :: (ms ++ l :: rest)) =
      if closes l then joined (w :: (ms ++ [l])) :: group none rest
      else group (some (joined (w :: (ms ++ [l])))) rest := by
  have hjoin : w ++ (ms.flatMap fun x => SPACE :: x) ++ SPACE :: l = joined (w :: (ms ++ [l])) := by
    rw [joined_eq_flatMap]; simp
  rw [group, if_pos h.opens, if_neg (by simp [h.inner w List.mem_cons_self]),
    group_some_append fun x hx => h.inner x (List.mem_cons_of_mem w hx), group, hjoin]
  split
  · rw [unquoted_of_space_mem space_mem_joined]
  · rfl

theorem words_phrase {w l : Bytes} {ms : List Bytes} (h : IsPhrase w ms l) :
    words (joined (w :: (ms ++ [l]))) = w :: (ms ++ [l]) := words_joined h.isWord

/-- The last token of a line, read back. -/
theorem group_words_last {v : Bytes} (h : TokenShape v) :
    group none (words v) = if v = [] then [] else [reread v] := by
  rcases h with (h | ⟨w, ms, l, hp, hc, rfl⟩) | ⟨w, ms, l, hp, hc, rfl⟩
  · rw [words_bare h]
    by_cases hv : v = []
    · rw [if_pos hv, if_pos hv]; rfl
    · rw [if_neg hv, if_neg hv, group, reread]
      by_cases ho : opens v = true
      · rw [if_pos ho, if_pos ho]; split <;> rfl
      · rw [if_neg ho, if_neg ho]; rfl
  all_goals
    rw [words_phrase hp, hp.group_eq [], if_neg (List.ne_nil_of_mem space_mem_joined), reread,
      if_pos hp.opens_joined, unquoted_of_space_mem space_mem_joined]
    simp [hc, group, unquoted_of_space_mem space_mem_joined]

/-- A readable token with more words after it, read back. -/
theorem group_words_key {k : Bytes} (h : KeyShape k) (hr : Readable k) (ws : List Bytes) :
    group none (words k ++ ws) = reread k :: group none ws := by
  rcases h with h | ⟨w, ms, l, hp, hc, rfl⟩
  · rw [words_bare h, if_neg hr.1, List.singleton_append, group, reread]
    by_cases ho : opens k = true
    · rw [if_pos ho, if_pos ho, if_pos (hr.2 ho)]
    · rw [if_neg ho, if_neg ho]
  · rw [words_phrase hp, List.cons_append, List.append_assoc, List.singleton_append,
      hp.group_eq ws, if_pos hc, reread, if_pos hp.opens_joined,
      unquoted_of_space_mem space_mem_joined]

/-- A token that starts with a quotation mark and does not end with one
swallows the token printed after it. -/
theorem length_group_swallowed {k v : Bytes} (hk : KeyShape k) (hv : TokenShape v)
    (ho : opens k = true) (hc : closes k = false) :
    (group none (words k ++ words v)).length = 1 := by
  -- a phrase of several words that is a key is closed
  have hbare : Bare k := by
    rcases hk with h | ⟨w, ms, l, hp, hcl, rfl⟩
    · exact h
    · rw [hp.closes_joined, hcl] at hc; exact absurd hc (by simp)
  have hne : k ≠ [] := by
    rintro rfl
    exact absurd ho (by decide)
  rw [words_bare hbare, if_neg hne, List.singleton_append, group, if_pos ho,
    if_neg (by simp [hc])]
  have hlast : ∀ (b l : Bytes), (group (some b) [l]).length = 1 := by
    intro b l
    rw [group]
    split <;> rfl
  have hphrase : ∀ w ms l, IsPhrase w ms l →
      (group (some k) (words (joined (w :: (ms ++ [l]))))).length = 1 := by
    intro w ms l hp
    rw [words_phrase hp, ← List.cons_append, group_some_append hp.inner]
    exact hlast _ _
  rcases hv with (h | ⟨w, ms, l, hp, -, rfl⟩) | ⟨w, ms, l, hp, -, rfl⟩
  · rw [words_bare h]
    split
    · rfl
    · exact hlast k v
  · exact hphrase w ms l hp
  · exact hphrase w ms l hp

end Taproot
