import Taproot.Lines

/-!
# Taproot.Recovery

Loading a log that a crash has **cut off** in the middle of a flush.

The lines before the cut are read as they were written. The torn line is
dropped if too little of it is left to be a command. But a `put` whose value is
cut, and a `del` whose key is cut, are commands on another value or key
(`Shortened`), and nothing tells the loader that their line has no end.
-/

namespace Taproot

open Posix Journal

/-! ### Torn lines -/

/-- What is left of a record when its last argument is cut short. -/
def Shortened : Record → Record → Prop
  | .put k' v', .put k v => k' = k ∧ v' <+: v ∧ v' ≠ [] ∧ v' ≠ v
  | .del k', .del k => k' <+: k ∧ k' ≠ [] ∧ k' ≠ k
  | _, _ => False

theorem Plain.of_isPrefix {t u : Bytes} (h : Plain t) (hu : u <+: t) (hne : u ≠ []) : Plain u :=
  ⟨hne, fun c hc => h.2 c (hu.subset hc)⟩

theorem Shortened.plain {r' r : Record} (h : Shortened r' r) (hr : PlainRecord r) :
    PlainRecord r' := by
  match r', r with
  | .put k' v', .put k v =>
      obtain ⟨rfl, hv, hne, -⟩ := h
      exact ⟨hr.1, hr.2.of_isPrefix hv hne⟩
  | .del k', .del k => exact Plain.of_isPrefix hr h.1 h.2.1

/-- A line of a plain record is read as the record. -/
theorem commandRecords_lineText_plain {r : Record} (h : PlainRecord r) :
    commandRecords (tokens (lineText r)) = [r] := by
  rw [commandRecords_lineText h.shape, rereadRecord_of_fixed h.shape h.fixed]

theorem commandRecords_of_length {ts : List Bytes} (h : ts.length ≤ 1) :
    commandRecords ts = [] := by
  refine commandRecords_eq_nil fun hmut => ?_
  rcases hmut with ⟨-, hlen⟩ | ⟨-, hlen⟩ | ⟨-, hlen, -⟩ | ⟨-, hlen⟩ <;> omega

theorem length_group_bare {t : Bytes} (h : Bare t) : (group none (words t)).length ≤ 1 := by
  rw [group_words_last (Or.inl (Or.inl h))]
  split <;> simp

theorem Bare.of_isPrefix {t u : Bytes} (h : Bare t) (hu : u <+: t) : Bare u :=
  fun c hc => h c (hu.subset hc)

/-- Too few arguments are left for a put. -/
theorem commandRecords_put_torn {args : Bytes} (h : (group none (words args)).length ≤ 1) :
    commandRecords (tokens (ascii "put" ++ SPACE :: args)) = [] := by
  rw [tokens_op plainWord_put, commandRecords_put, if_neg (by omega)]

/-- **What a torn line is read as**: nothing; its own record, if only the end of
the line is missing; or a shortened record. -/
theorem commandRecords_torn {r : Record} (hr : PlainRecord r) {t : Bytes} (ht : t <+: lineText r) :
    commandRecords (tokens t) = [] ∨ t = lineText r ∨
      ∃ r', Shortened r' r ∧ t = lineText r' := by
  have hop : ∀ op : Bytes, PlainWord op → t <+: op → commandRecords (tokens t) = [] :=
    fun op hop h => commandRecords_of_length (length_group_bare (Bare.of_isPrefix hop.1.2 h))
  -- the cut is in the command, in the key, or in the value
  cases r with
  | put k v =>
      have hk : Bare k := hr.1.plainWord.1.2
      rcases Words.prefix_append_cons ht with ht | ⟨u, rfl, hu⟩
      · exact Or.inl (hop _ plainWord_put ht)
      rcases Words.prefix_append_cons hu with hu | ⟨v', rfl, hv⟩
      · exact Or.inl (commandRecords_put_torn (length_group_bare (hk.of_isPrefix hu)))
      by_cases hv' : v' = v
      · exact Or.inr (Or.inl (by rw [hv']; rfl))
      by_cases hnil : v' = []
      · refine Or.inl (commandRecords_put_torn ?_)
        rw [hnil, words, Words.words_append_cons k [] isspace_SPACE, Words.words_nil,
          List.append_nil]
        exact length_group_bare hk
      -- the value has lost some of its end, and is still one word
      · exact Or.inr (Or.inr ⟨.put k v', ⟨rfl, hv, hnil, hv'⟩, rfl⟩)
  | del k =>
      rcases Words.prefix_append_cons ht with ht | ⟨k', rfl, hk⟩
      · exact Or.inl (hop _ plainWord_del ht)
      by_cases hk' : k' = k
      · exact Or.inr (Or.inl (by rw [hk']; rfl))
      by_cases hnil : k' = []
      · rw [hnil]
        exact Or.inl (by decide)
      · exact Or.inr (Or.inr ⟨.del k', ⟨hk, hnil, hk'⟩, rfl⟩)

theorem newline_notMem_of_isPrefix {r : Record} (hr : RecordShape r) {t : Bytes}
    (ht : t <+: lineText r) : NEWLINE ∉ t :=
  fun hmem => newline_notMem_lineText hr (ht.subset hmem)

/-- The lines before the cut are read as they were written. -/
theorem runRecords_getlines_torn {rs : List Record} (hrs : ∀ r ∈ rs, PlainRecord r) {t : Bytes}
    (ht : NEWLINE ∉ t) :
    runRecords (getlines (logLines rs ++ t)) = rs ++ commandRecords (tokens t) := by
  have hlines : runRecords (getlines (logLines rs)) = rs := by
    have hnil : Words.Terminated NEWLINE [] := Words.terminated_nil
    have happend := runRecords_getlines_append hnil hrs
    simpa [getlines, runRecords] using happend
  have htorn : runRecords (getlines t) = commandRecords (tokens t) := by
    rw [getlines, Words.lines_of_not_mem ht]
    split
    · next hnil => rw [hnil]; rfl
    · simp [runRecords]
  rw [getlines, (terminated_logLines rs).lines_append, runRecords_append, ← htorn]
  exact congrArg (· ++ _) hlines

/-! ### Crashes -/

/-- The store that some prefix of a history leaves. -/
def IsPast (history : List Record) (s : Store) : Prop :=
  ∃ rs, rs <+: history ∧ s = replay ∅ rs

/-- A log of plain records that is cut off is loaded as a state of its history,
exactly if the cut leaves no shortened record that makes a new one. -/
theorem isPast_torn_iff {rs : List Record} (hrs : ∀ r ∈ rs, PlainRecord r) {p : Bytes}
    (hp : p <+: logLines rs) :
    IsPast rs (replay ∅ (runRecords (getlines p))) ↔
      ∀ rs₁ r rs₂ r', rs = rs₁ ++ r :: rs₂ → Shortened r' r → p = logLines rs₁ ++ lineText r' →
        IsPast rs (r'.apply (replay ∅ rs₁)) := by
  constructor
  · rintro hpast rs₁ r rs₂ r' rfl hshort rfl
    have hr' := hshort.plain (hrs r (by simp))
    rwa [runRecords_getlines_torn (fun x hx => hrs x (List.mem_append_left _ hx))
      (newline_notMem_lineText hr'.shape), commandRecords_lineText_plain hr',
      replay_append] at hpast
  · intro hcut
    rw [logLines_eq_flatMap] at hp
    obtain ⟨rs₁, t, hrs₁, rfl, ht⟩ := Words.prefix_flatMap_lines hp
    rw [← logLines_eq_flatMap] at hcut ⊢
    have hplain : ∀ r ∈ rs₁, PlainRecord r := fun r hr => hrs r (hrs₁.subset hr)
    -- the cut is between two lines or inside one
    rcases ht with rfl | ⟨r, rs₂, rfl, ht⟩
    · rw [runRecords_getlines_torn hplain List.not_mem_nil]
      exact ⟨rs₁, hrs₁, by rw [show commandRecords (tokens []) = [] from rfl, List.append_nil]⟩
    · have hr := hrs r (by simp)
      rw [runRecords_getlines_torn hplain (newline_notMem_of_isPrefix hr.shape ht)]
      rcases commandRecords_torn hr ht with hnil | rfl | ⟨r', hshort, rfl⟩
      · rw [hnil, List.append_nil]
        exact ⟨rs₁, hrs₁, rfl⟩
      · rw [commandRecords_lineText_plain hr]
        exact ⟨rs₁ ++ [r], ⟨rs₂, by simp⟩, rfl⟩
      · rw [commandRecords_lineText_plain (hshort.plain hr), replay_append]
        exact hcut rs₁ r rs₂ r' rfl hshort rfl

namespace Keyspace

variable {name : Bytes}

/-- **Crash recovery.** A prefix of the log that a run over an empty file has
written is loaded as the store that a prefix of the logged records leaves,
exactly if the cut leaves no shortened record that makes a new one. -/
theorem recovers_iff {fs fs' : Files} {env : Env} {db : DB} {es : List Event}
    (hempty : (fs.read (aofPath name)).getD [] = []) (hnew : DB.new env fs name = (fs', .ok db))
    (hes : ∀ e ∈ es, e.isTraffic = true) (hplain : ∀ e ∈ es, ∀ r ∈ e.records, PlainRecord r)
    {p : Bytes} (hp : p <+: (run ⟨fs', db⟩ es).text) {fs₂ fs₂' : Files} {env₂ : Env} {db₂ : DB}
    (hread : fs₂.read (aofPath name) = some p) (hload : DB.new env₂ fs₂ name = (fs₂', .ok db₂)) :
    IsPast (run ⟨fs', db⟩ es).db.logger.appended db₂.store ↔
      ∀ rs₁ r rs₂ r', (run ⟨fs', db⟩ es).db.logger.appended = rs₁ ++ r :: rs₂ → Shortened r' r →
        p = logLines rs₁ ++ lineText r' →
          IsPast (run ⟨fs', db⟩ es).db.logger.appended (r'.apply (replay ∅ rs₁)) := by
  obtain ⟨a, i, -, -, hdb, ha, hread'⟩ := new_inv hnew
  rw [hempty] at hdb hread'
  obtain ⟨rs, hrun, hrs⟩ := extends_run ha hes
  have happended : (run ⟨fs', db⟩ es).db.logger.appended = rs := by
    rw [hrun.appended, hdb]
    rfl
  have htext : (run ⟨fs', db⟩ es).text = logLines rs := by
    have hstart : text ⟨fs', db⟩ = [] := by
      show (fs'.read (aofPath db.name)).getD [] ++ _ = _
      rw [hdb]
      show (fs'.read (aofPath name)).getD [] ++ _ = _
      rw [hread']
      rfl
    rw [hrun.text, hstart, List.nil_append]
  obtain ⟨-, -, -, -, rfl, -⟩ := new_inv hload
  rw [htext] at hp
  rw [happended, hread]
  refine isPast_torn_iff (fun r hr => ?_) hp
  obtain ⟨e, he, hr⟩ := hrs r hr
  exact hplain e he r hr

/-- A put that is cut off before its value is dropped. -/
theorem recovers_cut_key :
    ∃ fs₂' db₂, DB.new Env.calm (savedFiles (ascii "a") (ascii "put k")) (ascii "a") =
        (fs₂', .ok db₂) ∧
      IsPast ((fresh (ascii "a")).run [.command (ascii "put k 12")]).db.logger.appended
        db₂.store := by
  have hload := new_savedFiles Env.calm (ascii "a") (ascii "put k")
  have hempty : (blankFiles.read (aofPath (ascii "a"))).getD [] = [] := rfl
  refine ⟨_, _, hload, (recovers_iff hempty (new_blankFiles (ascii "a")) (by decide) ?_ ?_
    (read_savedFiles (ascii "a") (ascii "put k")) hload).mpr ?_⟩
  · intro e he
    obtain rfl := List.mem_singleton.mp he
    show ∀ r ∈ commandRecords (tokens (ascii "put k 12")), PlainRecord r
    decide
  · exact ⟨ascii " 12\n", by decide⟩
  · intro rs₁ r rs₂ r' hsplit hshort heq
    rw [show ((fresh (ascii "a")).run [.command (ascii "put k 12")]).db.logger.appended =
      [.put (ascii "k") (ascii "12")] from by decide] at hsplit
    cases rs₁ with
    | cons x rs₁ => exact absurd (congrArg List.length hsplit) (by simp)
    | nil =>
        obtain ⟨rfl, -⟩ := List.cons.inj hsplit
        -- a put with some of its value is longer
        match r', hshort with
        | .put k' v', ⟨hk, _, hv, _⟩ =>
            have hpos : 0 < v'.length := List.length_pos_iff.mpr hv
            have hlen : 5 = (lineText (.put k' v')).length := congrArg List.length heq
            rw [hk, lineText, List.length_append, List.length_cons, List.length_append,
              List.length_cons, show (ascii "put").length = 3 from rfl,
              show (ascii "k").length = 1 from rfl] at hlen
            omega

/-- Cut off inside its value, a put is loaded with a value that the key never
had. -/
theorem not_recovers :
    ascii "put k 1" <+: ((fresh (ascii "a")).run [.command (ascii "put k 12")]).text ∧
    ∃ fs₂' db₂, DB.new Env.calm (savedFiles (ascii "a") (ascii "put k 1")) (ascii "a") =
        (fs₂', .ok db₂) ∧
      ¬IsPast ((fresh (ascii "a")).run [.command (ascii "put k 12")]).db.logger.appended
        db₂.store := by
  have hload := new_savedFiles Env.calm (ascii "a") (ascii "put k 1")
  refine ⟨⟨ascii "2\n", by decide⟩, _, _, hload, ?_⟩
  have happended : ((fresh (ascii "a")).run [.command (ascii "put k 12")]).db.logger.appended =
      [.put (ascii "k") (ascii "12")] := by decide
  rw [happended]
  -- the history has two states: no `k`, and `k` with its whole value
  rintro ⟨rs, hrs, heq⟩
  have hlookup := congrArg (·.lookup (ascii "k")) heq
  cases rs with
  | nil => exact absurd hlookup (by decide)
  | cons r rs =>
      obtain ⟨rfl, hnil⟩ := List.cons_prefix_cons.mp hrs
      obtain rfl := List.prefix_nil.mp hnil
      exact absurd hlookup (by decide)

end Keyspace

end Taproot
