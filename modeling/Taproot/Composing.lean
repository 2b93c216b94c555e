import Taproot.Quoting
import Taproot.Reread

/-!
# Taproot.Composing

How `tokenize` **composes**: what it makes of two texts with white space between them,
against what it makes of each.

A pass over the words is cut in two: the tokens that are complete, and the phrase that
is being read. The second text is then read from where the first one left off
(`group_append`). A phrase that is open at the end of the first text goes on in the
second, and its token changes; no other token ever does (`tokenize_append`).
-/

namespace Taproot

/-- The tokens that are complete after the words. -/
def complete : Option Bytes → List Bytes → List Bytes
  | _, [] => []
  | none, w :: ws =>
    if opens w then
      if closes w then unquoted w :: complete none ws else complete (some w) ws
    else w :: complete none ws
  | some b, w :: ws =>
    if closes w then unquoted (b ++ SPACE :: w) :: complete none ws
    else complete (some (b ++ SPACE :: w)) ws

/-- The phrase that is being read after the words. -/
def reading : Option Bytes → List Bytes → Option Bytes
  | phrase, [] => phrase
  | none, w :: ws => if opens w && !closes w then reading (some w) ws else reading none ws
  | some b, w :: ws => if closes w then reading none ws else reading (some (b ++ SPACE :: w)) ws

/-- What follows is read from where the words left off. -/
theorem group_append (phrase : Option Bytes) (us ws : List Bytes) :
    group phrase (us ++ ws) = complete phrase us ++ group (reading phrase us) ws := by
  induction us generalizing phrase with
  | nil => simp [complete, reading]
  | cons w us ih =>
      cases phrase with
      | none =>
          rw [List.cons_append, group, complete, reading]
          by_cases hopens : opens w = true
          · by_cases hcloses : closes w = true
            · simp [hopens, hcloses, ih]
            · simp [hopens, hcloses, ih]
          · simp [hopens, ih]
      | some b =>
          rw [List.cons_append, group, complete, reading]
          by_cases hcloses : closes w = true
          · simp [hcloses, ih]
          · simp [hcloses, ih]

/-- The end of the input ends a phrase. -/
theorem group_eq (phrase : Option Bytes) (ws : List Bytes) :
    group phrase ws = complete phrase ws ++ (reading phrase ws).toList.map unquoted := by
  have happend := group_append phrase ws []
  rw [List.append_nil] at happend
  rw [happend]
  cases reading phrase ws <;> rfl

theorem isSome_reading (phrase : Option Bytes) (ws : List Bytes) :
    (reading phrase ws).isSome =
      ws.foldl (fun inside w => !closes w && (inside || opens w)) phrase.isSome := by
  induction ws generalizing phrase with
  | nil => rw [reading, List.foldl_nil]
  | cons w ws ih =>
      cases phrase with
      | none =>
          rw [reading, List.foldl_cons, Option.isSome_none, Bool.false_or, Bool.and_comm]
          cases !closes w && opens w with
          | true => exact ih (some w)
          | false => exact ih none
      | some b =>
          rw [reading, List.foldl_cons, Option.isSome_some, Bool.true_or, Bool.and_true]
          cases closes w with
          | true => exact ih none
          | false => exact ih (some (b ++ SPACE :: w))

theorem inPhrase_eq_isSome (ws : List Bytes) : inPhrase ws = (reading none ws).isSome :=
  (isSome_reading none ws).symm

/-- A phrase that goes on has more than it had. -/
theorem group_some_longer (b w : Bytes) (ws : List Bytes) :
    ∃ t rest, group (some b) (w :: ws) = t :: rest ∧ b ++ [SPACE] <+: t := by
  induction ws generalizing b w with
  | nil =>
      have hspace : SPACE ∈ b ++ SPACE :: w := by simp
      refine ⟨b ++ SPACE :: w, [], ?_, by simp⟩
      rw [group]
      split <;> simp [group, unquoted_of_space_mem hspace]
  | cons w' ws ih =>
      rw [group]
      split
      · have hspace : SPACE ∈ b ++ SPACE :: w := by simp
        rw [unquoted_of_space_mem hspace]
        exact ⟨_, _, rfl, by simp⟩
      · obtain ⟨t, rest, hgroup, hlonger⟩ := ih (b ++ SPACE :: w) w'
        refine ⟨t, rest, hgroup, List.IsPrefix.trans ?_ hlonger⟩
        simp

theorem length_unquoted_le (t : Bytes) : (unquoted t).length ≤ t.length := by
  rcases unquoted_eq_or t with h | h
  · rw [h]
  · rw [h, List.length_dropLast, List.length_tail]
    omega

/-- Two lists of words are grouped one after the other, unless a phrase goes on from the
first into the second. -/
theorem group_append_iff (us ws : List Bytes) :
    group none (us ++ ws) = group none us ++ group none ws ↔ inPhrase us = false ∨ ws = [] := by
  rw [group_append, group_eq none us, inPhrase_eq_isSome, List.append_assoc, List.append_right_inj]
  cases reading none us with
  | none => simp
  | some b =>
      cases ws with
      | nil => simp [group]
      | cons w ws =>
          -- the phrase that goes on is longer than what is left of it when the input ends
          obtain ⟨t, rest, hgroup, hlonger⟩ := group_some_longer b w ws
          have hlength : b.length + 1 ≤ t.length := by simpa using hlonger.length_le
          rw [hgroup]
          refine iff_of_false (fun heq => ?_) (by simp)
          have hhead : t = unquoted b := (List.cons.inj heq).1
          have hle := length_unquoted_le b
          rw [← hhead] at hle
          omega

/-- **What is added to a command.** After white space, any text is tokenized apart from
what stands before it exactly if that leaves no quoted argument open, or the text is
blank; and it never changes a token before the last. -/
theorem tokenize_append (a b : Bytes) {c : UInt8} (hc : isspace c = true) :
    ∃ ts us vs, tokenize a = .ok ts ∧ tokenize b = .ok us ∧ tokenize (a ++ c :: b) = .ok vs ∧
      (vs = ts ++ us ↔ inPhrase (words a) = false ∨ isAllSpace b = true) ∧
      ts.dropLast <+: vs := by
  have hwords : words (a ++ c :: b) = words a ++ words b := Words.words_append_cons a b hc
  refine ⟨tokens a, tokens b, tokens (a ++ c :: b), tokenize_eq a, tokenize_eq b, tokenize_eq _,
    ?_, ?_⟩
  · rw [tokens, hwords, tokens, tokens, group_append_iff]
    refine or_congr_right ?_
    rw [words, Words.words_eq_nil_iff, isAllSpace, List.all_eq_true]
  · rw [tokens, tokens, hwords, group_append, group_eq none (words a)]
    cases reading none (words a) with
    | none =>
        rw [Option.toList_none, List.map_nil, List.append_nil]
        exact (List.dropLast_prefix _).trans (List.prefix_append _ _)
    | some phrase =>
        rw [Option.toList_some, List.map_singleton, List.dropLast_concat]
        exact List.prefix_append _ _

/-- A carriage return at the end of a line is no part of a token. -/
theorem tokenize_append_carriage_return :
    tokenize (ascii "put k \"v\r") = tokenize (ascii "put k \"v") := by
  obtain ⟨ts, us, vs, hts, hus, hvs, heq, -⟩ :=
    tokenize_append (ascii "put k \"v") [] (by decide : isspace 13 = true)
  obtain rfl : [] = us := Except.ok.inj hus
  rw [hts, ← List.append_nil ts, ← heq.mpr (Or.inr rfl)]
  exact hvs

end Taproot
