import Taproot.Utils

/-!
# Taproot.Tokens

What `tokenize` computes, as a function without loops that are cut off or reads
that can fail: `tokens` groups the words of the input in one pass, with the
phrase that is being read as its state. `tokenize_eq` shows that the two nested
loops of the source compute it, with no element read that is not there.
-/

namespace Taproot

/-- The word starts with a quotation mark. -/
def opens (w : Bytes) : Bool := w.head? = some DELIMITER

/-- The word ends with a quotation mark. -/
def closes (w : Bytes) : Bool := w.getLast? = some DELIMITER

/-- A quoted token without its quotation marks, if it has no space. -/
def unquoted (t : Bytes) : Bytes := if SPACE ∈ t then t else t.tail.dropLast

/-- The tokens of a list of words; `some b` when the phrase `b` is being read. -/
def group : Option Bytes → List Bytes → List Bytes
  | none, [] => []
  | some b, [] => [unquoted b]
  | none, w :: ws =>
    if opens w then
      if closes w then unquoted w :: group none ws else group (some w) ws
    else w :: group none ws
  | some b, w :: ws =>
    if closes w then unquoted (b ++ SPACE :: w) :: group none ws
    else group (some (b ++ SPACE :: w)) ws

/-- The tokens of a string. -/
def tokens (s : Bytes) : List Bytes := group none (words s)

/-! ### The loops compute the tokens -/

theorem back_eq {s : Bytes} (h : s ≠ []) : back s = .ok (s.getLast h) := by
  rw [back, List.getLast?_eq_some_getLast h]

theorem closes_iff {s : Bytes} (h : s ≠ []) : closes s = true ↔ s.getLast h = DELIMITER := by
  rw [closes, List.getLast?_eq_some_getLast h]
  simp

theorem unquote_eq {t : Bytes} (h : t ≠ []) : unquote t = .ok (unquoted t) := by
  unfold unquote unquoted
  split
  · rfl
  · have hlen : 1 ≤ t.length := List.length_pos_iff.mpr h
    rw [substr, if_neg (by omega)]
    refine congrArg Except.ok ?_
    rw [List.drop_one, List.dropLast_eq_take, List.length_tail]
    by_cases h2 : 2 ≤ t.length
    · rw [sizeSub, if_pos h2, Nat.sub_sub]
    · have htail : t.tail = [] := by
        rw [← List.length_eq_zero_iff, List.length_tail]
        omega
      simp only [htail, List.take_nil]

/-- The inner loop, entered with `buffer` read up to the word `token`: it stops
after the phrase, and the rest of the words is grouped from there. -/
theorem readPhrase_eq {ws : List Bytes} (hws : ∀ w ∈ ws, w ≠ []) :
    ∀ {buffer token : Bytes}, buffer ≠ [] → token ≠ [] →
      ∃ b rest, readPhrase buffer token ws = .ok (b, rest) ∧ b ≠ [] ∧ rest <:+ ws ∧
        (if closes token then unquoted buffer :: group none ws else group (some buffer) ws) =
          unquoted b :: group none rest := by
  induction ws with
  | nil =>
      intro buffer token hb ht
      refine ⟨buffer, [], ?_, hb, List.suffix_refl _, by split <;> rfl⟩
      rw [readPhrase, back_eq ht]
      rfl
  | cons next ws ih =>
      intro buffer token hb ht
      rw [readPhrase, back_eq ht]
      -- the loop tests the word read before the one at hand
      by_cases hclose : closes token = true
      · refine ⟨buffer, next :: ws, ?_, hb, List.suffix_refl _, by rw [if_pos hclose]⟩
        simp [bind, Except.bind, pure, Except.pure, (closes_iff ht).mp hclose]
      · have hne : token.getLast ht ≠ DELIMITER := fun h => hclose ((closes_iff ht).mpr h)
        obtain ⟨b, rest, hread, hbne, hsuf, hgroup⟩ :=
          @ih (fun w hw => hws w (List.mem_cons_of_mem next hw)) (buffer ++ SPACE :: next) next
            (by simp) (hws next List.mem_cons_self)
        refine ⟨b, rest, ?_, hbne, hsuf.trans (List.suffix_cons next ws), ?_⟩
        · simpa [bind, Except.bind, hne] using hread
        · rw [if_neg hclose, group, hgroup]

theorem tokenizeLoop_eq {fuel : Nat} : ∀ {ws : List Bytes}, ws.length ≤ fuel →
    (∀ w ∈ ws, w ≠ []) → tokenizeLoop fuel ws = .ok (group none ws) := by
  induction fuel with
  | zero =>
      intro ws hlen _
      rw [List.eq_nil_of_length_eq_zero (Nat.le_zero.mp hlen)]
      rfl
  | succ fuel ih =>
      intro ws hlen hws
      cases ws with
      | nil => rfl
      | cons w ws =>
          have hw : w ≠ [] := hws w List.mem_cons_self
          have hrest : ∀ x ∈ ws, x ≠ [] := fun x hx => hws x (List.mem_cons_of_mem w hx)
          have hlen' : ws.length ≤ fuel := Nat.le_of_succ_le_succ hlen
          by_cases ho : opens w = true
          · have hhead : w.head? = some DELIMITER := by simpa [opens] using ho
            -- the inner loop leaves a suffix, for which the fuel is enough
            obtain ⟨b, rest, hread, hb, hsuf, hgroup⟩ := readPhrase_eq hrest hw hw
            have ihrest := ih (hsuf.length_le.trans hlen') fun x hx => hrest x (hsuf.subset hx)
            rw [group, if_pos ho, hgroup]
            simp [tokenizeLoop, hhead, hread, unquote_eq hb, ihrest, bind, Except.bind, pure,
              Except.pure]
          · have hhead : w.head? ≠ some DELIMITER := by simpa [opens] using ho
            rw [group, if_neg ho]
            simp [tokenizeLoop, hhead, ih hlen' hrest, bind, Except.bind, pure, Except.pure]

/-- `tokenize` returns, on every input. -/
theorem tokenize_eq (s : Bytes) : tokenize s = .ok (tokens s) :=
  tokenizeLoop_eq le_rfl fun _ hw => (Words.isWord_of_mem_words hw).1

end Taproot
