import Taproot.Library.Delimiters
import Taproot.Keyspace
import Taproot.Reread

/-!
# Taproot.Showing

What can be **read off a display**. `keys` and `values` list their lines, between a
head and a foot; `show` has the key and the value on one line, with `": "` between
them. Commands never store a newline, so the lines are always read back one by one,
and `show` gives every pair away exactly if no key holds the separator itself
(`run_shown`): then a reply to `show` is a copy of the keyspace.

The displays of single keys and of several keys, and the getters, are here too.
They say the same as `get` (`mem_readItems_displayOf`).
-/

namespace Taproot

open Posix Journal Chunks

/-- What stands between a key and its value. -/
def SEPARATOR : Bytes := ascii ": "

/-- `contains`. -/
def contains (vector : List Bytes) (value : Bytes) : Bool := vector.any fun elem => elem == value

theorem contains_iff {vector : List Bytes} {value : Bytes} :
    contains vector value = true ↔ value ∈ vector := by
  simp [contains]

namespace DB

/-! ### Getters and displays of some keys -/

/-- `DB::getKeys`. -/
def getKeys (env : Env) (db : DB) : List Bytes :=
  (env.iteration.entries db.store).map Sigma.fst

/-- `DB::getValues`. -/
def getValues (env : Env) (db : DB) : List Bytes :=
  (env.iteration.entries db.store).map Sigma.snd

/-- `DB::getItems`. -/
def getItems (env : Env) (db : DB) : List (Σ _ : Bytes, Bytes) := env.iteration.entries db.store

/-- `DB::getItems` of some keys. -/
def getItemsOf (db : DB) (keys : List Bytes) : List (Bytes × Option Bytes) :=
  keys.map fun key => (key, db.get key)

/-- `DB::display` of one key. The value is read even if there is none. -/
def displayAt (db : DB) (key : Bytes) : Except Fault Bytes :=
  match db.get key with
  | some value => .ok (framed (value ++ ascii "\n"))
  | none => .error .undefinedBehaviour

/-- `DB::display` of some keys. -/
def displayOf (env : Env) (db : DB) (keys : List Bytes) : Bytes :=
  framed (ascii "| Key-values for keyspace: '" ++ db.name ++ ascii "'\n" ++
    (env.iteration.entries db.store).flatMap fun item =>
      if contains keys item.1 then item.1 ++ SEPARATOR ++ item.2 ++ ascii "\n" else [])

end DB

/-! ### Reading a display -/

/-- The lines between the head and the foot. -/
def readLines (reply : Bytes) : List Bytes := ((getlines reply).drop 3).dropLast

/-- A line is split at the first separator. -/
def readItem (line : Bytes) : Σ _ : Bytes, Bytes :=
  ⟨before SEPARATOR line, line.drop ((before SEPARATOR line).length + SEPARATOR.length)⟩

/-- The pairs on the lines. -/
def readItems (reply : Bytes) : List (Σ _ : Bytes, Bytes) := (readLines reply).map readItem

/-- A framed list of lines is a list of lines, and read back as one. -/
theorem readLines_framed {β : Type} {headline : Bytes} (hhead : NEWLINE ∉ headline) {f : β → Bytes}
    {xs : List β} (hlines : ∀ x ∈ xs, NEWLINE ∉ f x) :
    readLines (DB.framed (headline ++ ascii "\n" ++ xs.flatMap fun x => f x ++ ascii "\n")) =
      xs.map f := by
  let bar : Bytes := ascii "============"
  -- the empty line, the bar, the headline, the lines, the bar
  have htext : DB.framed (headline ++ ascii "\n" ++ xs.flatMap fun x => f x ++ ascii "\n") =
      ([[], bar, headline] ++ xs.map f ++ [bar]).flatMap fun line => line ++ [NEWLINE] := by
    simp only [List.flatMap_append, List.flatMap_cons, List.flatMap_nil, List.append_nil,
      List.flatMap_map]
    show ascii "\n============\n" ++ _ ++ ascii "============\n" = _
    rw [show ascii "\n============\n" = [NEWLINE] ++ (bar ++ [NEWLINE]) from rfl,
      show ascii "============\n" = bar ++ [NEWLINE] from rfl, show ascii "\n" = [NEWLINE] from rfl]
    simp only [List.append_assoc, List.nil_append]
  have hall : ∀ line ∈ [[], bar, headline] ++ xs.map f ++ [bar], NEWLINE ∉ line := by
    have hbar : NEWLINE ∉ bar := by decide
    intro line hline
    simp only [List.mem_append, List.mem_cons, List.mem_map, List.not_mem_nil, or_false] at hline
    rcases hline with ((rfl | rfl | rfl) | ⟨x, hx, rfl⟩) | rfl
    · exact List.not_mem_nil
    · exact hbar
    · exact hhead
    · exact hlines x hx
    · exact hbar
  rw [readLines, htext, getlines, Words.lines_flatMap hall, List.map_id']
  simp

/-- A pair is read off its line exactly if the key does not hold the separator. -/
theorem readItem_iff (e : Σ _ : Bytes, Bytes) :
    readItem (e.1 ++ SEPARATOR ++ e.2) = e ↔ ¬SEPARATOR <:+: e.1 := by
  obtain ⟨key, value⟩ := e
  constructor
  · intro heq hinside
    have hkey : before SEPARATOR (key ++ SEPARATOR ++ value) = key := congrArg Sigma.fst heq
    rw [List.append_assoc, before_append hinside] at hkey
    -- the first separator is inside the key, so the key is cut there
    have hlength := (before_append_isPrefix hinside).length_le
    rw [hkey, List.length_append] at hlength
    exact absurd hlength (by simp [SEPARATOR, ascii])
  · intro hnot
    have hkey : before SEPARATOR (key ++ SEPARATOR ++ value) = key := by
      rw [before_append (List.suffix_append key SEPARATOR).isInfix]
      exact before_append_self (by decide : (58 : UInt8) ∉ [32]) hnot
    have hvalue : (key ++ SEPARATOR ++ value).drop (key.length + SEPARATOR.length) = value := by
      rw [← List.length_append, List.drop_left]
    rw [readItem]
    dsimp only
    rw [hkey, hvalue]

/-- A list is read off a display exactly if each of its pairs is. -/
theorem map_readItem_iff (es : List (Σ _ : Bytes, Bytes)) :
    (es.map fun e => readItem (e.1 ++ SEPARATOR ++ e.2)) = es ↔ ∀ e ∈ es, ¬SEPARATOR <:+: e.1 := by
  constructor
  · intro h e he
    have hself : es.map (fun e => readItem (e.1 ++ SEPARATOR ++ e.2)) = es.map id := by
      rw [h, List.map_id]
    exact (readItem_iff e).mp (List.map_inj_left.mp hself e he)
  · intro h
    calc (es.map fun e => readItem (e.1 ++ SEPARATOR ++ e.2))
        = es.map id := List.map_congr_left fun e he => (readItem_iff e).mpr (h e he)
      _ = es := List.map_id es

/-- No key and no value of the store holds a newline. -/
def Legible (store : Store) : Prop :=
  ∀ k v, store.lookup k = some v → NEWLINE ∉ k ∧ NEWLINE ∉ v

theorem legible_empty : Legible ∅ := fun k v h => absurd h (by simp)

theorem Legible.replay {store : Store} (h : Legible store) {rs : List Record}
    (hrs : ∀ k v, Update.put k v ∈ rs → NEWLINE ∉ k ∧ NEWLINE ∉ v) :
    Legible (Journal.replay store rs) := by
  intro k v hkv
  rcases mem_or_put_of_mem_replay hkv with hkv | hput
  · exact h k v hkv
  · exact hrs k v hput

/-- What a command stores is legible. -/
theorem legible_commandRecords (c : Bytes) :
    ∀ k v, Update.put k v ∈ commandRecords (tokens c) → NEWLINE ∉ k ∧ NEWLINE ∉ v := by
  intro k v hput
  have hshape := recordShape_of_mem_commandRecords (shaped_tokens c) _ hput
  exact ⟨TokenShape.newline_notMem (Or.inl hshape.1), hshape.2.newline_notMem⟩

namespace DB

variable {db : DB}

/-- The display of one key is defined for the keys that are there, and no others. -/
theorem displayAt_eq_ok_iff (key : Bytes) :
    (∃ text, db.displayAt key = .ok text) ↔ key ∈ db.store := by
  rw [← Finmap.lookup_isSome, displayAt, get]
  cases db.store.lookup key <;> simp

/-- The lines of the displays of a legible store. -/
structure Shown (env : Env) (db : DB) : Prop where
  keys : readLines (db.displayKeys env) = db.getKeys env
  values : readLines (db.displayValues env) = db.getValues env
  items : readItems (db.display env) = db.getItems env ↔ ∀ k ∈ db.store, ¬SEPARATOR <:+: k

/-- The lines of a display of the keyspace. -/
theorem readLines_display {kind : Bytes} (hkind : NEWLINE ∉ kind) (hname : NEWLINE ∉ db.name)
    {f : (Σ _ : Bytes, Bytes) → Bytes} {es : List (Σ _ : Bytes, Bytes)}
    (hlines : ∀ e ∈ es, NEWLINE ∉ f e) :
    readLines (framed (kind ++ db.name ++ ascii "'\n" ++ es.flatMap fun e => f e ++ ascii "\n")) =
      es.map f := by
  have hhead : NEWLINE ∉ kind ++ db.name ++ ascii "'" := by
    intro hmem
    rw [List.mem_append, List.mem_append] at hmem
    rcases hmem with (hmem | hmem) | hmem
    · exact hkind hmem
    · exact hname hmem
    · exact absurd hmem (by decide)
  rw [show ascii "'\n" = ascii "'" ++ ascii "\n" from rfl, ← List.append_assoc]
  exact readLines_framed hhead hlines

/-- A pair is on one line. -/
theorem newline_notMem_item {k v : Bytes} (hk : NEWLINE ∉ k) (hv : NEWLINE ∉ v) :
    NEWLINE ∉ k ++ SEPARATOR ++ v := by
  intro hmem
  rw [List.mem_append, List.mem_append] at hmem
  rcases hmem with (hmem | hmem) | hmem
  · exact hk hmem
  · exact absurd hmem (by decide)
  · exact hv hmem

/-- **What is read off the displays.** -/
theorem shown (env : Env) (hname : NEWLINE ∉ db.name) (h : Legible db.store) : Shown env db := by
  have hmem : ∀ e ∈ env.iteration.entries db.store, NEWLINE ∉ e.1 ∧ NEWLINE ∉ e.2 :=
    fun e he => h e.1 e.2 ((env.iteration.mem_entries_iff db.store).mp he)
  refine { keys := ?_, values := ?_, items := ?_ }
  · exact readLines_display (by decide) hname fun e he => (hmem e he).1
  · exact readLines_display (by decide) hname fun e he => (hmem e he).2
  · have hitems : readLines (db.display env) =
        (env.iteration.entries db.store).map fun e => e.1 ++ SEPARATOR ++ e.2 :=
      readLines_display (by decide) hname fun e he =>
        newline_notMem_item (hmem e he).1 (hmem e he).2
    rw [readItems, hitems, List.map_map]
    -- the pairs of the display are those of the store
    refine (map_readItem_iff _).trans ⟨fun hall k hk => ?_, fun hall e he => ?_⟩
    · obtain ⟨v, hv⟩ := Option.isSome_iff_exists.mp (Finmap.lookup_isSome.mpr hk)
      exact hall ⟨k, v⟩ ((env.iteration.mem_entries_iff db.store).mpr hv)
    · refine hall e.1 (Finmap.lookup_isSome.mp ?_)
      rw [(env.iteration.mem_entries_iff db.store).mp he]
      rfl

/-- A loop that skips some elements is a loop over the others. -/
theorem flatMap_if {β γ : Type} (p : β → Bool) (f : β → List γ) (xs : List β) :
    (xs.flatMap fun x => if p x then f x else []) = (xs.filter p).flatMap f := by
  induction xs with
  | nil => rfl
  | cons x xs ih =>
      by_cases hx : p x = true
      · rw [List.flatMap_cons, if_pos hx, List.filter_cons_of_pos hx, List.flatMap_cons, ih]
      · rw [List.flatMap_cons, if_neg hx, List.filter_cons_of_neg hx, ih, List.nil_append]

/-- The display of some keys has a line for each that is stored. -/
theorem readItems_displayOf (env : Env) (hname : NEWLINE ∉ db.name) (h : Legible db.store)
    {keys : List Bytes} (hkeys : ∀ k ∈ keys, k ∈ db.store → ¬SEPARATOR <:+: k) :
    readItems (db.displayOf env keys) =
      (db.getItems env).filter fun item => contains keys item.1 := by
  have hmem : ∀ e ∈ env.iteration.entries db.store, NEWLINE ∉ e.1 ∧ NEWLINE ∉ e.2 :=
    fun e he => h e.1 e.2 ((env.iteration.mem_entries_iff db.store).mp he)
  have hlines : readLines (db.displayOf env keys) =
      ((db.getItems env).filter fun item => contains keys item.1).map
        fun e => e.1 ++ SEPARATOR ++ e.2 := by
    rw [displayOf, flatMap_if]
    refine readLines_display (by decide) hname fun e he => ?_
    have he' := hmem e (List.mem_of_mem_filter he)
    exact newline_notMem_item he'.1 he'.2
  rw [readItems, hlines, List.map_map]
  refine (map_readItem_iff _).mpr fun e he => ?_
  obtain ⟨hstored, hasked⟩ := List.mem_filter.mp he
  refine hkeys e.1 (contains_iff.mp hasked) (Finmap.lookup_isSome.mp ?_)
  rw [(env.iteration.mem_entries_iff db.store).mp hstored]
  rfl

/-- It agrees with the getter of some keys. -/
theorem mem_readItems_displayOf (env : Env) (hname : NEWLINE ∉ db.name) (h : Legible db.store)
    {keys : List Bytes} (hkeys : ∀ k ∈ keys, k ∈ db.store → ¬SEPARATOR <:+: k) (k v : Bytes) :
    ⟨k, v⟩ ∈ readItems (db.displayOf env keys) ↔ (k, some v) ∈ db.getItemsOf keys := by
  rw [readItems_displayOf env hname h hkeys, List.mem_filter, contains_iff, getItems,
    env.iteration.mem_entries_iff, getItemsOf, List.mem_map]
  constructor
  · rintro ⟨hstored, hasked⟩
    exact ⟨k, hasked, Prod.ext rfl hstored⟩
  · rintro ⟨key, hasked, heq⟩
    obtain ⟨rfl, hstored⟩ := Prod.mk.inj heq
    exact ⟨hstored, hasked⟩

end DB

/-! ### Runs -/

/-- The direct calls of the run put no newlines. -/
def CallsLegible (es : List Event) : Prop :=
  ∀ call, Event.call call ∈ es → ∀ k v, Update.put k v ∈ call.records → NEWLINE ∉ k ∧ NEWLINE ∉ v

namespace Keyspace

variable {name : Bytes} {ks : Keyspace}

/-- Every event leaves the name, and the store legible. -/
theorem legible_step (h : ks.db.name = name ∧ Legible ks.db.store) {e : Event}
    (he : ∀ k v, Update.put k v ∈ e.records → NEWLINE ∉ k ∧ NEWLINE ∉ v) :
    (ks.step e).1.db.name = name ∧ Legible (ks.step e).1.db.store := by
  cases e with
  | command c =>
      rcases step_command_cases ks c with hstep | hstep
      · rw [hstep]
        exact ⟨h.1, h.2.replay he⟩
      · rw [hstep]
        exact h
  | call c =>
      rw [step_call]
      exact ⟨h.1, h.2.replay he⟩
  | clearData => exact ⟨h.1, legible_empty⟩
  | swap => exact h
  | write => exact h
  | shutdown env =>
      have hdb : (ks.step (.shutdown env)).1.db = (ks.db.shutdown env ks.fs).2.1 := rfl
      rw [hdb, DB.shutdown_db]
      exact h

/-- **A display is a copy of the keyspace.** Of every log that can be loaded and in every run
from there, `keys` and `values` list what there is, and `show` gives every pair away
exactly if no key holds the separator; the puts of these pairs make the store anew. -/
theorem run_shown {fs fs' : Files} {env : Env} {db : DB} (hname : NEWLINE ∉ name)
    (hnew : DB.new env fs name = (fs', .ok db)) {es : List Event} (hes : CallsLegible es)
    (env' : Env) :
    let db' := (Keyspace.run ⟨fs', db⟩ es).db
    readLines (db'.displayKeys env') = db'.getKeys env' ∧
      readLines (db'.displayValues env') = db'.getValues env' ∧
      (readItems (db'.display env') = db'.getItems env' ↔
        ∀ k ∈ db'.store, ¬SEPARATOR <:+: k) ∧
      ((∀ k ∈ db'.store, ¬SEPARATOR <:+: k) →
        replay ∅ (puts (readItems (db'.display env'))) = db'.store) := by
  intro db'
  have hloaded : db.name = name ∧ Legible db.store := by
    cases hp : fs.resolve (aofPath name) with
    | none =>
        rw [DB.new_eq_error env hp] at hnew
        exact absurd (congrArg Prod.snd hnew) (by simp)
    | some a =>
        obtain ⟨i, -, heq⟩ := DB.new_eq env hp
        rw [heq] at hnew
        obtain rfl := Except.ok.inj (congrArg Prod.snd hnew)
        refine ⟨rfl, legible_empty.replay fun k v hput => ?_⟩
        obtain ⟨c, -, hput⟩ := List.mem_flatMap.mp hput
        exact legible_commandRecords c k v hput
  have hrun : db'.name = name ∧ Legible db'.store := by
    refine run_induction (P := fun ks => ks.db.name = name ∧ Legible ks.db.store)
      (fun ks e he h => legible_step h fun k v hput => ?_) hloaded
    cases e with
    | command c => exact legible_commandRecords c k v hput
    | call c => exact hes c he k v hput
    | clearData => exact absurd hput List.not_mem_nil
    | swap => exact absurd hput List.not_mem_nil
    | write => exact absurd hput List.not_mem_nil
    | shutdown env => exact absurd hput List.not_mem_nil
  have hshown := DB.shown env' (hrun.1 ▸ hname) hrun.2
  refine ⟨hshown.keys, hshown.values, hshown.items, fun hkeys => ?_⟩
  rw [hshown.items.mpr hkeys]
  exact replay_puts_entries env'.iteration db'.store

/-- Of a new keyspace, after a batch of puts. -/
theorem run_shown_mput :
    replay ∅ (puts (readItems (((fresh (ascii "a")).run
      [.command (ascii "mput a 1 b \"x: y\"")]).db.display Env.calm))) =
      ((fresh (ascii "a")).run [.command (ascii "mput a 1 b \"x: y\"")]).db.store := by
  have hcalls : CallsLegible [.command (ascii "mput a 1 b \"x: y\"")] :=
    fun call hcall => absurd hcall (by simp)
  have hrun := run_shown (by decide) (new_blankFiles (ascii "a")) hcalls Env.calm
  refine hrun.2.2.2 fun k hk => ?_
  have hkeys : ∀ r ∈ commandRecords (tokens (ascii "mput a 1 b \"x: y\"")),
      ¬SEPARATOR <:+: r.key := by decide
  obtain ⟨v, hv⟩ := Option.isSome_iff_exists.mp (Finmap.lookup_isSome.mpr hk)
  rw [run_cons, step_command ((attached_fresh (ascii "a")).appends none)] at hv
  rcases mem_or_put_of_mem_replay hv with hnone | hput
  · have hempty : (fresh (ascii "a")).db.store = ∅ := rfl
    rw [hempty] at hnone
    exact absurd hnone (by simp)
  · exact hkeys _ hput

end Keyspace

end Taproot
