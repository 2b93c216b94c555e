import Taproot.Command
import Taproot.Shapes

/-!
# Taproot.Reread

The lines of the log, **read back**: `rereadRecord r` is what the line of a
record stands for when it goes through the tokenizer and the dispatcher once
more (`runRecords_getlines_logLines`).

A line gives its record back exactly when the key and the value are fixed
points of the tokenizer in their places: a key that is a plain word or a closed
phrase, a value that may also be an open phrase, since it ends the line. Other
tokens get shorter, which is what the converse rests on.
-/

namespace Taproot

open Journal

/-! ### Records that commands make -/

/-- The shapes of the tokens of a record that a command can make. -/
def RecordShape : Record → Prop
  | .put k v => KeyShape k ∧ TokenShape v
  | .del k => TokenShape k

theorem recordShape_of_mem_pairRecords {ts : List Bytes} (h : Shaped ts) :
    ∀ r ∈ pairRecords ts, RecordShape r := by
  fun_induction pairRecords ts with
  | case1 k v ts ih =>
      intro r hr
      rcases List.mem_cons.mp hr with rfl | hr
      · exact ⟨h.keyShape, h.tail.tokenShape v List.mem_cons_self⟩
      · exact ih h.tail.tail r hr
  | case2 ts _ => exact fun r hr => absurd hr List.not_mem_nil

theorem recordShape_of_mem_dels {ts : List Bytes} (h : Shaped ts) :
    ∀ r ∈ ts.map Update.del, RecordShape r := by
  intro r hr
  obtain ⟨k, hk, rfl⟩ := List.mem_map.mp hr
  exact h.tokenShape k hk

theorem recordShape_of_mem_commandRecords {ts : List Bytes} (h : Shaped ts) :
    ∀ r ∈ commandRecords ts, RecordShape r := by
  cases ts with
  | nil => exact fun r hr => absurd hr List.not_mem_nil
  | cons op args =>
      intro r hr
      rw [commandRecords] at hr
      split at hr
      · exact recordShape_of_mem_pairRecords h.tail r hr
      split at hr
      · exact recordShape_of_mem_dels h.tail r hr
      split at hr
      · exact recordShape_of_mem_pairRecords h.tail r hr
      split at hr
      · exact recordShape_of_mem_dels h.tail r hr
      · exact absurd hr List.not_mem_nil

theorem recordShape_of_mem_runRecords {cs : List Bytes} :
    ∀ r ∈ runRecords cs, RecordShape r := by
  intro r hr
  obtain ⟨c, -, hr⟩ := List.mem_flatMap.mp hr
  exact recordShape_of_mem_commandRecords (shaped_tokens c) r hr

/-! ### Lines -/

/-- A line without its end. -/
def lineText : Record → Bytes
  | .put k v => ascii "put" ++ SPACE :: (k ++ SPACE :: v)
  | .del k => ascii "del" ++ SPACE :: k

theorem line_eq (r : Record) : r.line = lineText r ++ [NEWLINE] := by
  cases r with
  | put k v =>
      show ascii "put " ++ k ++ ascii " " ++ v ++ ascii "\n" = _
      rw [show ascii "put " = ascii "put" ++ [SPACE] from by decide,
        show ascii " " = [SPACE] from by decide, show ascii "\n" = [NEWLINE] from by decide]
      simp [lineText]
  | del k =>
      show ascii "del " ++ k ++ ascii "\n" = _
      rw [show ascii "del " = ascii "del" ++ [SPACE] from by decide,
        show ascii "\n" = [NEWLINE] from by decide]
      simp [lineText]

theorem logLines_eq_flatMap (rs : List Record) :
    logLines rs = rs.flatMap fun r => lineText r ++ [NEWLINE] :=
  congrArg (rs.flatMap ·) (funext line_eq)

theorem newline_notMem_lineText {r : Record} (h : RecordShape r) : NEWLINE ∉ lineText r := by
  have hput : NEWLINE ∉ ascii "put" := by decide
  have hdel : NEWLINE ∉ ascii "del" := by decide
  have hspace : NEWLINE ≠ SPACE := by decide
  cases r with
  | put k v =>
      have hk : NEWLINE ∉ k := TokenShape.newline_notMem (Or.inl h.1)
      simp [lineText, hput, hspace, hk, h.2.newline_notMem]
  | del k => simp [lineText, hdel, hspace, TokenShape.newline_notMem h]

/-- The lines of a log are the lines of its records. -/
theorem getlines_logLines {rs : List Record} (h : ∀ r ∈ rs, RecordShape r) :
    getlines (logLines rs) = rs.map lineText := by
  rw [logLines_eq_flatMap]
  exact Words.lines_flatMap fun r hr => newline_notMem_lineText (h r hr)

/-! ### What a line stands for -/

instance (t : Bytes) : Decidable (Readable t) := by unfold Readable; infer_instance

/-- What the line of a record stands for. -/
def rereadRecord : Record → List Record
  | .put k v => if Readable k ∧ v ≠ [] then [.put (reread k) (reread v)] else []
  | .del k => if k = [] then [] else [.del (reread k)]

theorem isWord_of_all {w : Bytes} (hne : w ≠ []) (h : (w.all fun c => !isspace c) = true) :
    IsWord w := ⟨hne, fun c hc => by simpa using List.all_eq_true.mp h c hc⟩

theorem plainWord_put : PlainWord (ascii "put") :=
  ⟨isWord_of_all (by decide) (by decide), by decide⟩

theorem plainWord_del : PlainWord (ascii "del") :=
  ⟨isWord_of_all (by decide) (by decide), by decide⟩

theorem tokens_op {op : Bytes} (h : PlainWord op) (args : Bytes) :
    tokens (op ++ SPACE :: args) = op :: group none (words args) := by
  rw [tokens, words, Words.words_append_cons _ _ isspace_SPACE, Words.words_of_isWord h.1,
    List.singleton_append, group, if_neg (by simp [h.2])]
  rfl

theorem tokens_lineText_put (k v : Bytes) :
    tokens (lineText (.put k v)) = ascii "put" :: group none (words k ++ words v) := by
  rw [lineText, tokens_op plainWord_put, words, Words.words_append_cons _ _ isspace_SPACE]
  rfl

theorem tokens_lineText_del (k : Bytes) :
    tokens (lineText (.del k)) = ascii "del" :: group none (words k) := tokens_op plainWord_del k

theorem commandRecords_put (args : List Bytes) :
    commandRecords (ascii "put" :: args) = if args.length = 2 then pairRecords args else [] := by
  simp [commandRecords, show ascii "put" ≠ ascii "del" from by decide,
    show ascii "put" ≠ ascii "mput" from by decide, show ascii "put" ≠ ascii "mdel" from by decide]

theorem commandRecords_del (args : List Bytes) :
    commandRecords (ascii "del" :: args) = if args.length = 1 then args.map .del else [] := by
  simp [commandRecords, show ascii "del" ≠ ascii "put" from by decide,
    show ascii "del" ≠ ascii "mput" from by decide, show ascii "del" ≠ ascii "mdel" from by decide]

/-- **What a printed record stands for.** -/
theorem commandRecords_lineText {r : Record} (h : RecordShape r) :
    commandRecords (tokens (lineText r)) = rereadRecord r := by
  cases r with
  | put k v =>
      obtain ⟨hk, hv⟩ := h
      rw [tokens_lineText_put, commandRecords_put, rereadRecord]
      -- fewer than two tokens are left unless both are read on their own
      have hshort : (group none (words k ++ words v)).length ≤ 1 →
          (if (group none (words k ++ words v)).length = 2
            then pairRecords (group none (words k ++ words v)) else []) = [] :=
        fun hle => if_neg (by omega)
      by_cases hkey : k = []
      · rw [if_neg fun hr : Readable k ∧ v ≠ [] => hr.1.1 hkey]
        refine hshort ?_
        rw [hkey, show words [] = [] from rfl, List.nil_append, group_words_last hv]
        split <;> simp
      by_cases hvalue : v = []
      · rw [if_neg fun hr : Readable k ∧ v ≠ [] => hr.2 hvalue]
        refine hshort ?_
        rw [hvalue, show words [] = [] from rfl, List.append_nil, group_words_last (Or.inl hk)]
        split <;> simp
      by_cases hreadable : opens k = true → closes k = true
      · rw [if_pos (show Readable k ∧ v ≠ [] from ⟨⟨hkey, hreadable⟩, hvalue⟩),
          group_words_key hk ⟨hkey, hreadable⟩, group_words_last hv, if_neg hvalue]
        rfl
      · rw [if_neg fun hr : Readable k ∧ v ≠ [] => hreadable hr.1.2]
        obtain ⟨hopen, hclose⟩ := Classical.not_imp.mp hreadable
        exact hshort (length_group_swallowed hk hv hopen (by simpa using hclose)).le
  | del k =>
      rw [tokens_lineText_del, commandRecords_del, group_words_last h, rereadRecord]
      split <;> rfl

/-- **Reading a log back** gives what each of its lines stands for. -/
theorem runRecords_getlines_logLines {rs : List Record} (h : ∀ r ∈ rs, RecordShape r) :
    runRecords (getlines (logLines rs)) = rs.flatMap rereadRecord := by
  rw [getlines_logLines h, runRecords, List.flatMap_map]
  exact List.flatMap_congr fun r hr => commandRecords_lineText (h r hr)

/-! ### Fixed points -/

/-- A key that reads back as itself. -/
def FixedKey (k : Bytes) : Prop := PlainWord k ∨ ClosedPhrase k

/-- A value that reads back as itself. -/
def FixedValue (v : Bytes) : Prop := FixedKey v ∨ OpenPhrase v

/-- A record whose line reads back as the record. -/
def FixedRecord : Record → Prop
  | .put k v => FixedKey k ∧ FixedValue v
  | .del k => FixedValue k

theorem unquoted_eq_or (t : Bytes) : unquoted t = t ∨ unquoted t = t.tail.dropLast := by
  unfold unquoted; split
  · exact Or.inl rfl
  · exact Or.inr rfl

theorem reread_of_not_opens {t : Bytes} (h : opens t = false) : reread t = t :=
  if_neg (by simp [h])

theorem ne_nil_of_opens {t : Bytes} (h : opens t = true) : t ≠ [] := by
  intro hnil
  rw [hnil] at h
  exact absurd h (by decide)

/-- A token reads back as itself, or as something shorter. -/
theorem reread_eq_or_lt (t : Bytes) : reread t = t ∨ (reread t).length < t.length := by
  by_cases ho : opens t = true
  · have hlen : 0 < t.length := List.length_pos_iff.mpr (ne_nil_of_opens ho)
    rw [reread, if_pos ho]
    rcases unquoted_eq_or t with h | h
    · exact Or.inl h
    · rw [h, List.length_dropLast, List.length_tail]
      exact Or.inr (by omega)
  · exact Or.inl (if_neg ho)

theorem length_reread_le (t : Bytes) : (reread t).length ≤ t.length := by
  rcases reread_eq_or_lt t with h | h
  · rw [h]
  · exact h.le

/-- The phrases among the fixed points. -/
theorem IsPhrase.fixed {w l : Bytes} {ms : List Bytes} (h : IsPhrase w ms l) :
    joined (w :: (ms ++ [l])) ≠ [] ∧
      reread (joined (w :: (ms ++ [l]))) = joined (w :: (ms ++ [l])) := by
  refine ⟨List.ne_nil_of_mem space_mem_joined, ?_⟩
  rw [reread, if_pos h.opens_joined, unquoted_of_space_mem space_mem_joined]

theorem fixedKey_iff {k : Bytes} (h : KeyShape k) : FixedKey k ↔ Readable k ∧ reread k = k := by
  constructor
  · rintro (⟨hword, hopen⟩ | ⟨w, ms, l, hp, hc, rfl⟩)
    · exact ⟨⟨hword.1, fun ho => absurd ho (by simp [hopen])⟩, reread_of_not_opens hopen⟩
    · exact ⟨⟨hp.fixed.1, fun _ => by rw [hp.closes_joined, hc]⟩, hp.fixed.2⟩
  · rintro ⟨⟨hne, -⟩, hfix⟩
    rcases h with hbare | hphrase
    · refine Or.inl ⟨hbare.isWord hne, ?_⟩
      -- without its marks it would be shorter
      by_contra ho
      have hopen : opens k = true := by simpa using ho
      have hlen : 0 < k.length := List.length_pos_iff.mpr hne
      rw [reread, if_pos hopen, unquoted_of_bare hbare] at hfix
      have hlt := congrArg List.length hfix
      rw [List.length_dropLast, List.length_tail] at hlt
      omega
    · exact Or.inr hphrase

theorem fixedValue_iff {v : Bytes} (h : TokenShape v) : FixedValue v ↔ v ≠ [] ∧ reread v = v := by
  constructor
  · rintro ((⟨hword, hopen⟩ | ⟨w, ms, l, hp, -, rfl⟩) | ⟨w, ms, l, hp, -, rfl⟩)
    · exact ⟨hword.1, reread_of_not_opens hopen⟩
    · exact hp.fixed
    · exact hp.fixed
  · rintro ⟨hne, hfix⟩
    rcases h with (hbare | hphrase) | hphrase
    · refine Or.inl (Or.inl ⟨hbare.isWord hne, ?_⟩)
      -- without its marks it would be shorter
      by_contra ho
      have hopen : opens v = true := by simpa using ho
      have hlen : 0 < v.length := List.length_pos_iff.mpr hne
      rw [reread, if_pos hopen, unquoted_of_bare hbare] at hfix
      have hlt := congrArg List.length hfix
      rw [List.length_dropLast, List.length_tail] at hlt
      omega
    · exact Or.inl (Or.inr hphrase)
    · exact Or.inr hphrase

/-- A fixed record is read back. -/
theorem rereadRecord_of_fixed {r : Record} (hs : RecordShape r) (h : FixedRecord r) :
    rereadRecord r = [r] := by
  cases r with
  | put k v =>
      obtain ⟨hreadable, hk⟩ := (fixedKey_iff hs.1).mp h.1
      obtain ⟨hne, hv⟩ := (fixedValue_iff hs.2).mp h.2
      rw [rereadRecord, if_pos ⟨hreadable, hne⟩, hk, hv]
  | del k =>
      obtain ⟨hne, hk⟩ := (fixedValue_iff hs).mp h
      rw [rereadRecord, if_neg hne, hk]

theorem flatMap_rereadRecord_of_fixed {rs : List Record} (hs : ∀ r ∈ rs, RecordShape r)
    (h : ∀ r ∈ rs, FixedRecord r) : rs.flatMap rereadRecord = rs := by
  induction rs with
  | nil => rfl
  | cons r rs ih =>
      rw [List.flatMap_cons, rereadRecord_of_fixed (hs r List.mem_cons_self)
        (h r List.mem_cons_self), ih (fun x hx => hs x (List.mem_cons_of_mem r hx))
        fun x hx => h x (List.mem_cons_of_mem r hx)]
      rfl

/-! ### Plain records -/

theorem Plain.reread_eq {t : Bytes} (h : Plain t) : reread t = t :=
  reread_of_not_opens h.plainWord.2

/-- A record of plain words. -/
def PlainRecord : Record → Prop
  | .put k v => Plain k ∧ Plain v
  | .del k => Plain k

instance (r : Record) : Decidable (PlainRecord r) := by
  cases r <;> (unfold PlainRecord; infer_instance)

theorem PlainRecord.shape {r : Record} (h : PlainRecord r) : RecordShape r := by
  cases r with
  | put k v => exact ⟨h.1.keyShape, Or.inl h.2.keyShape⟩
  | del k => exact Or.inl (Plain.keyShape h)

theorem PlainRecord.fixed {r : Record} (h : PlainRecord r) : FixedRecord r := by
  cases r with
  | put k v => exact ⟨Or.inl h.1.plainWord, Or.inl (Or.inl h.2.plainWord)⟩
  | del k => exact Or.inl (Or.inl (Plain.plainWord h))

theorem terminated_logLines (rs : List Record) : Words.Terminated NEWLINE (logLines rs) := by
  rw [logLines_eq_flatMap]
  exact Words.terminated_flatMap lineText rs

theorem runRecords_append (cs cs' : List Bytes) :
    runRecords (cs ++ cs') = runRecords cs ++ runRecords cs' := List.flatMap_append

/-- Lines of plain records that are appended to a finished text stand for the
records. -/
theorem runRecords_getlines_append {t : Bytes} (ht : Words.Terminated NEWLINE t)
    {rs : List Record} (hrs : ∀ r ∈ rs, PlainRecord r) :
    runRecords (getlines (t ++ logLines rs)) = runRecords (getlines t) ++ rs := by
  have hshape : ∀ r ∈ rs, RecordShape r := fun r hr => (hrs r hr).shape
  rw [getlines, ht.lines_append, runRecords_append]
  have hback : rs.flatMap rereadRecord = rs :=
    flatMap_rereadRecord_of_fixed hshape fun r hr => (hrs r hr).fixed
  exact congrArg _ ((runRecords_getlines_logLines hshape).trans hback)

end Taproot
