import Mathlib.Data.List.Basic
import Taproot.Shapes

/-!
# Taproot.Quoting

What **quotation marks** do to the text around and between them.

The tokenizer takes the first and the last character off a token that starts
with a mark and has no space. They are two marks, unless nothing closes the
token and the input ends with it: then a letter is lost
(`tokenize_letters_iff`). An argument in marks stays one argument as long as no
whitespace follows the first mark; a mark on its own is an argument already
(`tokenize_quoted_iff`).
-/

namespace Taproot

/-! ### The text of tokens -/

/-- The characters that are neither whitespace nor quotation marks. -/
def letters (s : Bytes) : Bytes := s.filter fun c => !isspace c && c != DELIMITER

theorem letters_append (a b : Bytes) : letters (a ++ b) = letters a ++ letters b :=
  List.filter_append ..

@[simp] theorem letters_DELIMITER : letters [DELIMITER] = [] := by decide

theorem letters_flatten_words (s : Bytes) : letters (words s).flatten = letters s := by
  rw [words, Words.flatten_words, letters, letters, List.filter_filter]
  refine List.filter_congr fun c _ => ?_
  cases isspace c <;> simp

theorem letters_joined (ws : List Bytes) : letters (joined ws) = letters ws.flatten := by
  induction ws with
  | nil => rfl
  | cons w ws ih =>
      by_cases hws : ws = []
      · rw [hws, joined_singleton, List.flatten_cons, List.flatten_nil, List.append_nil]
      · have hspace : letters [SPACE] = [] := by decide
        rw [joined_cons w hws, ← List.singleton_append, letters_append, letters_append, hspace, ih,
          List.flatten_cons, letters_append, List.nil_append]

/-- What is left of a word that opens a quoted argument and is one of its own. -/
theorem unquoted_of_opens {w : Bytes} (hw : IsWord w) (ho : opens w = true) :
    w = [DELIMITER] ∧ unquoted w = [] ∨
      ∃ mid d, w = DELIMITER :: (mid ++ [d]) ∧ unquoted w = mid := by
  obtain ⟨c, rest, rfl⟩ := List.exists_cons_of_ne_nil hw.1
  obtain rfl : c = DELIMITER := by simpa [opens] using ho
  -- the opening mark is gone, and then the last character, whatever it is
  rw [unquoted_of_bare hw.2, List.tail_cons]
  rcases List.eq_nil_or_concat rest with rfl | ⟨mid, d, rfl⟩
  · exact Or.inl ⟨rfl, rfl⟩
  · rw [List.concat_eq_append]
    exact Or.inr ⟨mid, d, rfl, List.dropLast_concat⟩

theorem letters_opened (mid : Bytes) (d : UInt8) :
    letters (DELIMITER :: (mid ++ [d])) = letters mid ++ letters [d] := by
  rw [← List.singleton_append, letters_append, letters_DELIMITER, List.nil_append, letters_append]

/-- Two quotation marks are taken off. -/
theorem letters_unquoted_of_closes {w : Bytes} (hw : IsWord w) (ho : opens w = true)
    (hc : closes w = true) : letters (unquoted w) = letters w := by
  rcases unquoted_of_opens hw ho with ⟨rfl, hunquoted⟩ | ⟨mid, d, rfl, hunquoted⟩
  · rw [hunquoted, letters_DELIMITER]
    rfl
  · rw [← List.cons_append, closes_append (List.cons_ne_nil d [])] at hc
    obtain rfl : d = DELIMITER := by simpa [closes] using hc
    rw [hunquoted, letters_opened, letters_DELIMITER, List.append_nil]

/-- A quotation mark and a letter are taken off. -/
theorem letters_unquoted_of_not_closes {w : Bytes} (hw : IsWord w) (ho : opens w = true)
    (hc : closes w = false) : letters (unquoted w) ≠ letters w := by
  rcases unquoted_of_opens hw ho with ⟨rfl, -⟩ | ⟨mid, d, rfl, hunquoted⟩
  · exact absurd hc (by decide)
  · rw [← List.cons_append, closes_append (List.cons_ne_nil d [])] at hc
    have hd : letters [d] = [d] := by
      have hspace : isspace d = false := hw.2 d (by simp)
      have hdelim : d ≠ DELIMITER := by simpa [closes] using hc
      simp [letters, hspace, hdelim]
    rw [hunquoted, letters_opened, hd]
    exact fun heq => absurd (congrArg List.length heq) (by simp)

/-! ### Where a letter is lost -/

/-- After the words, a quoted argument is still being read. -/
def inPhrase (ws : List Bytes) : Bool :=
  ws.foldl (fun inside w => !closes w && (inside || opens w)) false

/-- The last word starts a quoted argument that it does not end. -/
def CutShort (ws : List Bytes) : Prop :=
  ∃ us w, ws = us ++ [w] ∧ inPhrase us = false ∧ opens w = true ∧ closes w = false

theorem not_cutShort_nil : ¬CutShort [] := fun ⟨us, w, h, _⟩ => absurd h (by simp)

theorem cutShort_concat_iff (us : List Bytes) (w : Bytes) :
    CutShort (us ++ [w]) ↔ inPhrase us = false ∧ opens w = true ∧ closes w = false := by
  constructor
  · intro hcut
    obtain ⟨us', w', heq, h⟩ := hcut
    obtain ⟨rfl, hw⟩ := List.append_inj' heq rfl
    obtain rfl : w = w' := List.singleton_inj.mp hw
    exact h
  · exact fun h => ⟨us, w, rfl, h⟩

theorem inPhrase_append {us : List Bytes} (h : inPhrase us = false) (ws : List Bytes) :
    inPhrase (us ++ ws) = inPhrase ws := by
  rw [inPhrase, List.foldl_append]
  exact congrArg (fun b => ws.foldl _ b) h

/-- Words that end all the arguments they start do not count. -/
theorem cutShort_append {us : List Bytes} (hus : inPhrase us = false) (hcut : ¬CutShort us)
    (ws : List Bytes) : CutShort (us ++ ws) ↔ CutShort ws := by
  rcases List.eq_nil_or_concat ws with rfl | ⟨vs, w, rfl⟩
  · rw [List.append_nil]
    exact iff_of_false hcut not_cutShort_nil
  · rw [List.concat_eq_append, ← List.append_assoc, cutShort_concat_iff, cutShort_concat_iff,
      inPhrase_append hus]

theorem IsPhrase.inPhrase_init {w l : Bytes} {ms : List Bytes} (h : IsPhrase w ms l) :
    inPhrase (w :: ms) = true := by
  have hrest : ∀ ms : List Bytes, (∀ x ∈ ms, closes x = false) →
      ms.foldl (fun inside x => !closes x && (inside || Taproot.opens x)) true = true := by
    intro ms hms
    induction ms with
    | nil => rfl
    | cons x ms ih =>
        rw [List.foldl_cons, hms x List.mem_cons_self]
        exact ih fun y hy => hms y (List.mem_cons_of_mem x hy)
  rw [inPhrase, List.foldl_cons, h.inner w List.mem_cons_self, h.opens]
  exact hrest ms fun x hx => h.inner x (List.mem_cons_of_mem w hx)

/-- The last word of a phrase does not start it. -/
theorem IsPhrase.not_cutShort {w l : Bytes} {ms : List Bytes} (h : IsPhrase w ms l) :
    ¬CutShort (w :: (ms ++ [l])) := by
  rw [← List.cons_append, cutShort_concat_iff, h.inPhrase_init]
  exact fun hcut => absurd hcut.1 (by simp)

theorem IsPhrase.inPhrase_eq {w l : Bytes} {ms : List Bytes} (h : IsPhrase w ms l) :
    inPhrase (w :: (ms ++ [l])) = !closes l := by
  have hinit := h.inPhrase_init
  rw [inPhrase] at hinit ⊢
  rw [← List.cons_append, List.foldl_append, hinit]
  simp

/-- A token that keeps the letters of its words. -/
theorem letters_cons_iff {t : Bytes} {us ts ws : List Bytes} (ht : letters t = letters us.flatten)
    (hus : inPhrase us = false) (hcut : ¬CutShort us)
    (h : letters ts.flatten = letters ws.flatten ↔ ¬CutShort ws) :
    letters (t :: ts).flatten = letters (us ++ ws).flatten ↔ ¬CutShort (us ++ ws) := by
  rw [cutShort_append hus hcut, List.flatten_cons, List.flatten_append, letters_append,
    letters_append, ht, List.append_right_inj, h]

theorem Grouped.letters_iff {ts ws : List Bytes} (h : Grouped ts ws) :
    letters ts.flatten = letters ws.flatten ↔ ¬CutShort ws := by
  induction h with
  | nil => exact iff_of_true rfl not_cutShort_nil
  | @plain w ts ws hw _ ih =>
      refine letters_cons_iff (by simp) (by simp [inPhrase, hw.2]) ?_ ih
      rw [← List.nil_append [w], cutShort_concat_iff, hw.2]
      simp
  | @quoted w ts ws hw ho hc _ ih =>
      refine letters_cons_iff ?_ (by simp [inPhrase, hc]) ?_ ih
      · simpa using letters_unquoted_of_closes hw ho hc
      · rw [← List.nil_append [w], cutShort_concat_iff, hc]
        simp
  | phrase hp hc _ ih =>
      refine letters_cons_iff (letters_joined _) ?_ hp.not_cutShort ih
      rw [hp.inPhrase_eq, hc]
      rfl
  | @cutWord w hw ho hc =>
      refine iff_of_false ?_ fun hcut => hcut ⟨[], w, rfl, rfl, ho, hc⟩
      simpa using letters_unquoted_of_not_closes hw ho hc
  | cutPhrase hp _ => exact iff_of_true (by simp [letters_joined]) hp.not_cutShort

/-- **The tokenizer drops no text**, unless the last word of the input starts a
quoted argument and does not end it. -/
theorem tokenize_letters_iff (input : Bytes) :
    (∃ ts, tokenize input = .ok ts ∧ letters ts.flatten = letters input) ↔
      ¬CutShort (words input) := by
  rw [← (grouped_tokens input).letters_iff, letters_flatten_words, tokenize_eq]
  constructor
  · intro hreturns
    obtain ⟨ts, hts, hletters⟩ := hreturns
    rwa [Except.ok.inj hts]
  · exact fun hletters => ⟨tokens input, rfl, hletters⟩

/-- The last letter of an argument that nothing closes is lost. -/
theorem not_tokenize_letters :
    ¬∃ ts, tokenize (ascii "put k \"abc") = .ok ts ∧
      letters ts.flatten = letters (ascii "put k \"abc") := by
  have htokens : tokenize (ascii "put k \"abc") = .ok [ascii "put", ascii "k", ascii "ab"] := by
    decide
  intro hreturns
  obtain ⟨ts, hts, hletters⟩ := hreturns
  rw [htokens] at hts
  rw [← Except.ok.inj hts] at hletters
  exact absurd hletters (by decide)

/-! ### An argument in quotation marks -/

/-- The words of `q` in order, with or without quotation marks around them. -/
def ConsistsOf (mid q : Bytes) : Prop :=
  ∃ t, words t = words q ∧ (mid = t ∨ mid = DELIMITER :: (t ++ [DELIMITER]))

theorem group_cons_of_closes {w : Bytes} (h : opens w = true → closes w = true)
    (ws : List Bytes) : group none (w :: ws) = reread w :: group none ws := by
  rw [group, reread]
  by_cases ho : opens w = true
  · rw [if_pos ho, if_pos ho, if_pos (h ho)]
  · rw [if_neg ho, if_neg ho]

/-- Words none of which starts a phrase make one token each. -/
theorem group_eq_map {ws : List Bytes} (h : ∀ w ∈ ws, opens w = true → closes w = true) :
    group none ws = ws.map reread := by
  induction ws with
  | nil => rfl
  | cons w ws ih =>
      rw [group_cons_of_closes (h w List.mem_cons_self),
        ih fun x hx => h x (List.mem_cons_of_mem w hx), List.map_cons]

theorem mem_of_mem_words {s w : Bytes} {c : UInt8} (hw : w ∈ words s) (hc : c ∈ w) : c ∈ s := by
  have hflat : c ∈ (words s).flatten := List.mem_flatten_of_mem hw hc
  rw [words, Words.flatten_words] at hflat
  exact (List.mem_filter.mp hflat).1

theorem opens_eq_false {w : Bytes} (h : DELIMITER ∉ w) : opens w = false := by
  cases w with
  | nil => rfl
  | cons c w => simpa [opens] using fun hc : c = DELIMITER => h (hc ▸ List.mem_cons_self)

theorem closes_eq_false {w : Bytes} (h : DELIMITER ∉ w) : closes w = false := by
  by_contra hc
  have hlast : w.getLast? = some DELIMITER := by simpa [closes] using hc
  exact h (List.mem_of_getLast? hlast)

theorem closes_concat (l : Bytes) : closes (l ++ [DELIMITER]) = true :=
  closes_append (List.cons_ne_nil DELIMITER []) l

@[simp] theorem isspace_DELIMITER : isspace DELIMITER = false := by decide

/-- The words of a quoted text up to the closing mark: words of the text, then
what is left of the last one in front of the mark. -/
theorem words_concat_DELIMITER {r : Bytes} (hr : DELIMITER ∉ r) :
    ∃ ms l, words (r ++ [DELIMITER]) = ms ++ [l ++ [DELIMITER]] ∧ words r = ms ++ words l ∧
      (∀ x ∈ ms, IsWord x ∧ DELIMITER ∉ x) ∧ Bare l ∧ DELIMITER ∉ l := by
  obtain ⟨ms, l, hconcat, hwords, hl⟩ := Words.words_concat r isspace_DELIMITER
  have hmem : ∀ x ∈ words r, DELIMITER ∉ x := fun x hx hd => hr (mem_of_mem_words hx hd)
  rw [← words] at hwords
  refine ⟨ms, l, hconcat, hwords, fun x hx => ?_, hl, fun hd => ?_⟩
  · have hx' : x ∈ words r := hwords ▸ List.mem_append_left _ hx
    exact ⟨Words.isWord_of_mem_words hx', hmem x hx'⟩
  · have hl' : l ∈ words l := by
      rw [words_bare hl, if_neg (List.ne_nil_of_mem hd)]
      exact List.mem_singleton.mpr rfl
    exact hmem l (hwords ▸ List.mem_append_right ms hl') hd

/-- The words of a command with a quoted argument. -/
theorem words_quoted {p s : Bytes} (hp : Plain p) (hs : Plain s) (q : Bytes) :
    words (p ++ SPACE :: DELIMITER :: (q ++ DELIMITER :: SPACE :: s)) =
      p :: (words (DELIMITER :: (q ++ [DELIMITER])) ++ [s]) := by
  have hsplit : DELIMITER :: (q ++ DELIMITER :: SPACE :: s) =
      (DELIMITER :: (q ++ [DELIMITER])) ++ SPACE :: s := by simp
  rw [hsplit, words, Words.words_append_cons p _ isspace_SPACE,
    Words.words_append_cons _ s isspace_SPACE, Words.words_of_isWord hp.plainWord.1,
    Words.words_of_isWord hs.plainWord.1]
  rfl

/-- An argument that begins with whitespace is at least two tokens. -/
theorem length_tokens_of_space {p s : Bytes} (hp : Plain p) (hs : Plain s) {c : UInt8} {r : Bytes}
    (hc : isspace c = true) (hr : DELIMITER ∉ r) :
    4 ≤ (tokens (p ++ SPACE :: DELIMITER :: ((c :: r) ++ DELIMITER :: SPACE :: s))).length := by
  obtain ⟨ms, l, hconcat, -, hms, -, hl⟩ := words_concat_DELIMITER hr
  have hwords : words (DELIMITER :: ((c :: r) ++ [DELIMITER])) =
      [DELIMITER] :: (ms ++ [l ++ [DELIMITER]]) := by
    have hsplit : DELIMITER :: ((c :: r) ++ [DELIMITER]) =
        [DELIMITER] ++ c :: (r ++ [DELIMITER]) := rfl
    rw [hsplit, words, Words.words_append_cons _ _ hc, ← words, ← words, hconcat]
    rfl
  rw [tokens, words_quoted hp hs, hwords, group_eq_map, List.length_map]
  · simp only [List.length_cons, List.length_append, List.length_nil]
    omega
  · intro w hw ho
    simp only [List.mem_cons, List.mem_append, List.not_mem_nil, or_false] at hw
    rcases hw with rfl | (rfl | hw | rfl) | rfl
    · rw [hp.plainWord.2] at ho
      exact absurd ho Bool.false_ne_true
    · rfl
    · rw [opens_eq_false (hms w hw).2] at ho
      exact absurd ho Bool.false_ne_true
    · exact closes_concat l
    · rw [hs.plainWord.2] at ho
      exact absurd ho Bool.false_ne_true

/-- A quoted word loses its marks. -/
theorem group_quoted_word {q : Bytes} (hq : IsWord q) (rest : List Bytes) :
    group none (words (DELIMITER :: (q ++ [DELIMITER])) ++ rest) = q :: group none rest := by
  have hbare : Bare (DELIMITER :: (q ++ [DELIMITER])) := by
    intro x hx
    simp only [List.mem_cons, List.mem_append, List.not_mem_nil, or_false] at hx
    rcases hx with rfl | hx | rfl
    · exact isspace_DELIMITER
    · exact hq.2 x hx
    · exact isspace_DELIMITER
  have hcloses : closes (DELIMITER :: (q ++ [DELIMITER])) = true := closes_concat (DELIMITER :: q)
  rw [words_bare hbare, if_neg (List.cons_ne_nil _ _), List.singleton_append,
    group_cons_of_closes fun _ => hcloses, reread, if_pos (by rfl),
    unquoted_of_bare hbare, List.tail_cons, List.dropLast_concat]

/-- Quoted words are a phrase of their own. -/
theorem group_quoted_words {a b : Bytes} {d : UInt8} (ha : IsWord a) (hd : isspace d = true)
    (hq : DELIMITER ∉ a ++ d :: b) (rest : List Bytes) :
    ∃ mid, group none (words (DELIMITER :: (a ++ d :: b ++ [DELIMITER])) ++ rest) =
      mid :: group none rest ∧ ConsistsOf mid (a ++ d :: b) := by
  have hda : DELIMITER ∉ a := fun h => hq (List.mem_append_left _ h)
  have hdb : DELIMITER ∉ b := fun h => hq (List.mem_append_right a (List.mem_cons_of_mem d h))
  obtain ⟨ms, l, hconcat, hwords, hms, hl, -⟩ := words_concat_DELIMITER hdb
  have hopening : IsWord (DELIMITER :: a) :=
    ⟨List.cons_ne_nil _ _, List.forall_mem_cons.mpr ⟨isspace_DELIMITER, ha.2⟩⟩
  have hphrase : IsPhrase (DELIMITER :: a) ms (l ++ [DELIMITER]) := {
    isWord := by
      intro x hx
      simp only [List.mem_cons, List.mem_append, List.not_mem_nil, or_false] at hx
      rcases hx with rfl | hx | rfl
      · exact hopening
      · exact (hms x hx).1
      · refine ⟨by simp, fun y hy => ?_⟩
        rcases List.mem_append.mp hy with hy | hy
        · exact hl y hy
        · rw [List.mem_singleton.mp hy, isspace_DELIMITER]
    opens := rfl
    inner := by
      intro x hx
      rcases List.mem_cons.mp hx with rfl | hx
      · rw [closes_cons ha.1]
        exact closes_eq_false hda
      · exact closes_eq_false (hms x hx).2 }
  have hread : words (DELIMITER :: (a ++ d :: b ++ [DELIMITER])) =
      (DELIMITER :: a) :: (ms ++ [l ++ [DELIMITER]]) := by
    have hsplit : DELIMITER :: (a ++ d :: b ++ [DELIMITER]) =
        (DELIMITER :: a) ++ d :: (b ++ [DELIMITER]) := by simp
    rw [hsplit, words, Words.words_append_cons _ _ hd, Words.words_of_isWord hopening, ← words,
      hconcat]
    rfl
  refine ⟨joined ((DELIMITER :: a) :: (ms ++ [l ++ [DELIMITER]])), ?_, joined (a :: (ms ++ [l])),
    ?_, Or.inr ?_⟩
  · rw [hread, List.cons_append, List.append_assoc, List.singleton_append, hphrase.group_eq,
      closes_concat, if_pos rfl]
  · have hmid : ms.flatMap words = ms :=
      (List.flatMap_congr fun x hx => Words.words_of_isWord (hms x hx).1).trans
        (List.flatMap_singleton' ms)
    rw [words_joined_eq_flatMap, List.flatMap_cons, List.flatMap_append, hmid, words, words,
      Words.words_append_cons a b hd, ← words, ← words, hwords]
    simp
  · rw [joined_eq_flatMap, joined_eq_flatMap]
    simp

/-- **A quoted argument is one argument** exactly if no whitespace follows its
first quotation mark. -/
theorem tokenize_quoted_iff {p q s : Bytes} (hp : Plain p) (hs : Plain s) (hq : DELIMITER ∉ q)
    (hword : ∃ c ∈ q, isspace c = false) :
    (∃ mid, tokenize (p ++ SPACE :: DELIMITER :: (q ++ DELIMITER :: SPACE :: s)) =
      .ok [p, mid, s] ∧ ConsistsOf mid q) ↔ ∀ c, q.head? = some c → isspace c = false := by
  have hone : ∀ {t : Bytes}, Plain t → ∀ ws, group none (t :: ws) = t :: group none ws := by
    intro t ht ws
    rw [group, if_neg (by simp [ht.plainWord.2])]
  rw [tokenize_eq]
  constructor
  · intro hreturns c hc
    obtain ⟨mid, htokens, -⟩ := hreturns
    obtain ⟨r, rfl⟩ := List.head?_eq_some_iff.mp hc
    by_contra hspace
    -- white space makes the opening mark a word of its own, and the text four tokens
    have hlen := length_tokens_of_space hp hs (by simpa using hspace)
      fun h => hq (List.mem_cons_of_mem c h)
    rw [Except.ok.inj htokens] at hlen
    exact absurd hlen (by simp)
  · intro hhead
    have hmid : ∃ mid, group none (words (DELIMITER :: (q ++ [DELIMITER])) ++ [s]) =
        mid :: group none [s] ∧ ConsistsOf mid q := by
      -- several words are a phrase, a single one is a word in marks
      by_cases hsep : ∃ x ∈ q, isspace x = true
      · obtain ⟨a, d, b, rfl, hd, ha⟩ := Words.exists_first_sep hsep
        have hne : a ≠ [] := by
          intro hnil
          subst hnil
          rw [hhead d rfl] at hd
          exact absurd hd Bool.false_ne_true
        exact group_quoted_words ⟨hne, ha⟩ hd hq [s]
      · obtain ⟨c, hc, -⟩ := hword
        have hbare : ∀ x ∈ q, isspace x = false := by
          intro x hx
          by_contra hne
          exact hsep ⟨x, hx, by simpa using hne⟩
        exact ⟨q, group_quoted_word ⟨List.ne_nil_of_mem hc, hbare⟩ [s], q, rfl, Or.inl rfl⟩
    obtain ⟨mid, hgroup, hconsists⟩ := hmid
    refine ⟨mid, congrArg Except.ok ?_, hconsists⟩
    rw [tokens, words_quoted hp hs, hone hp, hgroup, hone hs]
    rfl

/-- Two words with a space before the closing mark. -/
theorem tokenize_quoted_two_words :
    ∃ mid, tokenize (ascii "put \"a b \" v") = .ok [ascii "put", mid, ascii "v"] ∧
      ConsistsOf mid (ascii "a b ") :=
  (tokenize_quoted_iff (p := ascii "put") (q := ascii "a b ") (s := ascii "v") (by decide)
    (by decide) (by decide) ⟨97, by decide, by decide⟩).mpr fun c hc => by
      obtain rfl : 97 = c := Option.some.inj hc
      decide

/-- A space after the opening mark makes a token more. -/
theorem not_tokenize_quoted :
    ¬∃ mid, tokenize (ascii "put \" a\" v") = .ok [ascii "put", mid, ascii "v"] ∧
      ConsistsOf mid (ascii " a") := by
  have htokens : tokenize (ascii "put \" a\" v") =
      .ok [ascii "put", [], ascii "a\"", ascii "v"] := by decide
  intro hreturns
  obtain ⟨mid, hmid, -⟩ := hreturns
  rw [htokens] at hmid
  exact absurd (congrArg List.length (Except.ok.inj hmid)) (by simp)

end Taproot
