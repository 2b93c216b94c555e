import Taproot.Reread

/-!
# Taproot.FixedPoints

Which lists of tokens a line **reads back as itself**, when they are joined by
single spaces and tokenized.

That the fixed tokens do is the round trip of one token after the other. The
converse counts: with one space for each, the words of a line are never more
than its tokens joined, and the tokens of words are never more than the words.
A token that is not fixed has lost its quotation marks, so the count goes down
there, and it never comes up again (`Grouped.accounts`).
-/

namespace Taproot

open Words (extent)

/-- Tokens that a line gives back: keys, and a value at the end. -/
inductive FixedTokens : List Bytes → Prop
  | nil : FixedTokens []
  | last {t : Bytes} : FixedValue t → FixedTokens [t]
  | cons {t : Bytes} {ts : List Bytes} : FixedKey t → FixedTokens ts → FixedTokens (t :: ts)

theorem fixedTokens_iff {ts : List Bytes} : FixedTokens ts ↔
    (∀ t ∈ ts.dropLast, FixedKey t) ∧ ∀ t, ts.getLast? = some t → FixedValue t := by
  constructor
  · intro h
    induction h with
    | nil => simp
    | last ht => simpa using ht
    | @cons t ts ht _ ih =>
        cases ts with
        | nil =>
            have hvalue : FixedValue t := Or.inl ht
            simpa using hvalue
        | cons u ts =>
            refine ⟨fun x hx => ?_, fun x hx => ih.2 x (by rwa [List.getLast?_cons_cons] at hx)⟩
            rcases List.mem_cons.mp hx with rfl | hx
            · exact ht
            · exact ih.1 x hx
  · rintro ⟨hinit, hlast⟩
    induction ts with
    | nil => exact .nil
    | cons t ts ih =>
        cases ts with
        | nil => exact .last (hlast t rfl)
        | cons u ts =>
            refine .cons (hinit t List.mem_cons_self) (ih (fun x hx => ?_) fun x hx => ?_)
            · exact hinit x (List.mem_cons_of_mem t hx)
            · exact hlast x (by rwa [List.getLast?_cons_cons])

/-! ### Fixed tokens are read back -/

theorem FixedKey.keyShape {t : Bytes} (h : FixedKey t) : KeyShape t := h.imp (·.1.2) id

theorem FixedValue.tokenShape {t : Bytes} (h : FixedValue t) : TokenShape t :=
  h.imp FixedKey.keyShape id

theorem tokens_of_fixedValue {t : Bytes} (h : FixedValue t) : tokens t = [t] := by
  obtain ⟨hne, hfix⟩ := (fixedValue_iff h.tokenShape).mp h
  rw [tokens, group_words_last h.tokenShape, if_neg hne, hfix]

theorem FixedTokens.tokens_joined {ts : List Bytes} (h : FixedTokens ts) :
    tokens (joined ts) = ts := by
  induction h with
  | nil => rfl
  | last ht => rw [joined_singleton]; exact tokens_of_fixedValue ht
  | @cons t ts ht _ ih =>
      by_cases hts : ts = []
      · rw [hts, joined_singleton]
        exact tokens_of_fixedValue (Or.inl ht)
      · obtain ⟨hreadable, hfix⟩ := (fixedKey_iff ht.keyShape).mp ht
        rw [tokens, words_joined_cons t hts, group_words_key ht.keyShape hreadable, hfix]
        exact congrArg _ ih

/-! ### The count -/

theorem extent_singleton (t : Bytes) : extent [t] = t.length + 1 := rfl

theorem extent_eq_length_joined {ts : List Bytes} (h : ts ≠ []) :
    extent ts = (joined ts).length + 1 := by
  induction ts with
  | nil => exact absurd rfl h
  | cons t ts ih =>
      by_cases hts : ts = []
      · rw [hts, joined_singleton, extent_singleton]
      · rw [joined_cons t hts, extent, ih hts, List.length_append, List.length_cons]
        omega

/-- The tokens `ts` are no more than the words `ws`, and fixed if they are no
less. -/
def Accounts (ts ws : List Bytes) : Prop :=
  extent ts ≤ extent ws ∧ (extent ts = extent ws → FixedTokens ts)

theorem accounts_nil : Accounts [] [] := ⟨le_rfl, fun _ => .nil⟩

theorem Accounts.cons_fixed {t : Bytes} {us ts ws : List Bytes} (ht : FixedKey t)
    (hlen : extent [t] = extent us) (h : Accounts ts ws) : Accounts (t :: ts) (us ++ ws) := by
  have hcons : extent (t :: ts) = extent us + extent ts := by
    rw [← hlen, ← Words.extent_append]
    rfl
  obtain ⟨hle, hfixed⟩ := h
  rw [Accounts, Words.extent_append, hcons]
  exact ⟨by omega, fun heq => .cons ht (hfixed (by omega))⟩

theorem Accounts.cons_short {t : Bytes} {us ts ws : List Bytes} (hlen : extent [t] < extent us)
    (h : Accounts ts ws) : Accounts (t :: ts) (us ++ ws) := by
  have hcons : extent (t :: ts) = extent [t] + extent ts := by rw [← Words.extent_append]; rfl
  have hle : extent ts ≤ extent ws := h.1
  rw [Accounts, Words.extent_append, hcons]
  exact ⟨by omega, fun heq => by omega⟩

theorem extent_unquoted_lt {w : Bytes} (hw : IsWord w) : extent [unquoted w] < extent [w] := by
  have hlen : 0 < w.length := List.length_pos_iff.mpr hw.1
  rw [unquoted_of_bare hw.2, extent_singleton, extent_singleton, List.length_dropLast,
    List.length_tail]
  omega

/-- **The tokens of words are no more than the words**, and fixed if they are no
less. -/
theorem Grouped.accounts {ts ws : List Bytes} (h : Grouped ts ws) : Accounts ts ws := by
  induction h with
  | nil => exact accounts_nil
  | plain hw _ ih => exact ih.cons_fixed (Or.inl hw) rfl
  | quoted hw _ _ _ ih => exact ih.cons_short (extent_unquoted_lt hw)
  | phrase hp hc _ ih =>
      exact ih.cons_fixed (Or.inr ⟨_, _, _, hp, hc, rfl⟩)
        (extent_eq_length_joined (List.cons_ne_nil _ _)).symm
  | cutWord hw _ _ => exact accounts_nil.cons_short (extent_unquoted_lt hw)
  | cutPhrase hp hc =>
      exact ⟨(extent_eq_length_joined (List.cons_ne_nil _ _)).ge,
        fun _ => .last (Or.inr ⟨_, _, _, hp, hc, rfl⟩)⟩

/-- **The fixed points of the tokenizer**: plain words and closed phrases, and
at the end also a phrase that nothing closes. -/
theorem tokenize_joined_iff (ts : List Bytes) : tokenize (joined ts) = .ok ts ↔
    (∀ t ∈ ts.dropLast, FixedKey t) ∧ ∀ t, ts.getLast? = some t → FixedValue t := by
  rw [← fixedTokens_iff, tokenize_eq, Except.ok.injEq]
  refine ⟨fun heq => ?_, FixedTokens.tokens_joined⟩
  by_cases hts : ts = []
  · rw [hts]
    exact .nil
  -- the tokens are counted twice: as what the line is made of, and as what its words make
  · obtain ⟨hle, hfixed⟩ := (grouped_tokens (joined ts)).accounts
    rw [heq] at hle hfixed
    have hwords : extent (words (joined ts)) ≤ (joined ts).length + 1 := Words.extent_words_le _
    rw [← extent_eq_length_joined hts] at hwords
    exact hfixed (Nat.le_antisymm hle hwords)

end Taproot
