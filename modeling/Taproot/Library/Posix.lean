import Mathlib.Logic.Function.Basic
import Mathlib.Data.Option.Basic

/-!
# Taproot.Library.Posix

A small model of a POSIX file system: path strings resolve to **directory
entries**, entries point to **files** (inodes), files have contents. A stream
that was opened keeps referring to its file, whatever happens to the entry it
was opened through; renaming moves an entry and drops the one it replaces.

The state carries its own well-formedness: files in use are older than `next`,
and no two entries share a file (no hard links). What the operating system
makes of a path string (`resolve`) is part of the state but never changes:
`none` stands for every path that cannot be opened.

`FS.view e` is what an observer of the entry `e` sees: which file it is and
what the file holds. Each operation has one lemma for the entry it is about
and one frame lemma for all others.
-/

namespace Posix

/-- A file, by number. -/
abbrev Ino := Nat

/-- A file system: paths in `π`, directory entries in `ε`, contents over `β`. -/
structure FS (π ε β : Type*) where
  resolve : π → Option ε
  dir : ε → Option Ino
  data : Ino → List β
  next : Ino
  dir_lt : ∀ {e i}, dir e = some i → i < next
  dir_inj : ∀ {e e' i}, dir e = some i → dir e' = some i → e = e'

namespace FS

variable {π ε β : Type*}

/-- The file a path names at the moment. -/
def ino (fs : FS π ε β) (p : π) : Option Ino := (fs.resolve p).bind fs.dir

/-- The file behind an entry and its contents. -/
def view (fs : FS π ε β) (e : ε) : Option (Ino × List β) :=
  (fs.dir e).map fun i => (i, fs.data i)

/-- The contents a path names at the moment. -/
def read (fs : FS π ε β) (p : π) : Option (List β) := (fs.ino p).map fs.data

theorem view_eq_none_iff {fs : FS π ε β} {e : ε} : fs.view e = none ↔ fs.dir e = none := by
  simp [view]

theorem view_eq_some_iff {fs : FS π ε β} {e : ε} {i : Ino} {l : List β} :
    fs.view e = some (i, l) ↔ fs.dir e = some i ∧ fs.data i = l := by
  simp only [view, Option.map_eq_some_iff, Prod.mk.injEq]
  constructor
  · rintro ⟨j, hj, rfl, rfl⟩; exact ⟨hj, rfl⟩
  · rintro ⟨hi, rfl⟩; exact ⟨i, hi, rfl, rfl⟩

theorem read_eq {fs : FS π ε β} {p : π} {e : ε} (hp : fs.resolve p = some e) :
    fs.read p = (fs.view e).map Prod.snd := by
  simp [read, ino, view, hp, Function.comp_def]

theorem ino_eq {fs : FS π ε β} {p : π} {e : ε} (hp : fs.resolve p = some e) :
    fs.ino p = fs.dir e := by simp [ino, hp]

/-! ### Writing through an open stream -/

/-- Replace the contents of a file. -/
def setData (fs : FS π ε β) (i : Ino) (l : List β) : FS π ε β :=
  { fs with data := Function.update fs.data i l }

/-- Write at the end of a file. -/
def append (fs : FS π ε β) (i : Ino) (l : List β) : FS π ε β :=
  fs.setData i (fs.data i ++ l)

section setData

variable (fs : FS π ε β) (i : Ino) (l : List β)

@[simp] theorem setData_resolve : (fs.setData i l).resolve = fs.resolve := rfl
@[simp] theorem setData_dir : (fs.setData i l).dir = fs.dir := rfl
@[simp] theorem setData_data_self : (fs.setData i l).data i = l := by simp [setData]
theorem setData_data_of_ne {j : Ino} (h : j ≠ i) : (fs.setData i l).data j = fs.data j := by
  simp [setData, h]

@[simp] theorem append_resolve : (fs.append i l).resolve = fs.resolve := rfl
@[simp] theorem append_dir : (fs.append i l).dir = fs.dir := rfl
@[simp] theorem append_data_self : (fs.append i l).data i = fs.data i ++ l := by simp [append]
theorem append_nil : fs.append i [] = fs := by simp [append, setData]

theorem append_append (l' : List β) : (fs.append i l).append i l' = fs.append i (l ++ l') := by
  simp [append, setData]

end setData

theorem view_setData_of_ne {fs : FS π ε β} {e : ε} {i : Ino} (h : fs.dir e ≠ some i)
    (l : List β) : (fs.setData i l).view e = fs.view e := by
  cases hd : fs.dir e with
  | none => simp [view, hd]
  | some j =>
      have hj : j ≠ i := fun hji => h (hji ▸ hd)
      simp [view, hd, setData_data_of_ne fs i l hj]

theorem view_append_of_ne {fs : FS π ε β} {e : ε} {i : Ino} (h : fs.dir e ≠ some i)
    (l : List β) : (fs.append i l).view e = fs.view e :=
  view_setData_of_ne h _

theorem view_append_self {fs : FS π ε β} {e : ε} {i : Ino} (h : fs.dir e = some i)
    (l : List β) : (fs.append i l).view e = some (i, fs.data i ++ l) := by
  simp [view, h]

/-! ### Opening -/

section opening

variable [DecidableEq ε]

/-- Point an entry at a new, empty file. -/
def create (fs : FS π ε β) (e : ε) : FS π ε β where
  resolve := fs.resolve
  dir := Function.update fs.dir e (some fs.next)
  data := Function.update fs.data fs.next []
  next := fs.next + 1
  dir_lt := by
    intro e' i h
    rw [Function.update_apply] at h
    split at h
    · exact Option.some.inj h ▸ Nat.lt_succ_self _
    · exact Nat.lt_succ_of_lt (fs.dir_lt h)
  dir_inj := by
    intro e₁ e₂ i h₁ h₂
    rw [Function.update_apply] at h₁ h₂
    split at h₁ <;> split at h₂
    · next ha hb => rw [ha, hb]
    · exact absurd (Option.some.inj h₁ ▸ fs.dir_lt h₂) (Nat.lt_irrefl _)
    · exact absurd (Option.some.inj h₂ ▸ fs.dir_lt h₁) (Nat.lt_irrefl _)
    · exact fs.dir_inj h₁ h₂

/-- `open` with `O_CREAT | O_APPEND`: the file the path names, a new one if
there is none. -/
def openAppend (fs : FS π ε β) (p : π) : FS π ε β × Option Ino :=
  match fs.resolve p with
  | none => (fs, none)
  | some e =>
    match fs.dir e with
    | some i => (fs, some i)
    | none => (fs.create e, some fs.next)

/-- `open` with `O_CREAT | O_TRUNC`: the same, and what it held is dropped. -/
def openTrunc (fs : FS π ε β) (p : π) : FS π ε β × Option Ino :=
  match fs.openAppend p with
  | (fs', some i) => (fs'.setData i [], some i)
  | (fs', none) => (fs', none)

theorem view_create_of_ne {fs : FS π ε β} {e e' : ε} (h : e' ≠ e) :
    (fs.create e).view e' = fs.view e' := by
  have hdir : (fs.create e).dir e' = fs.dir e' := Function.update_of_ne h _ _
  cases hd : fs.dir e' with
  | none => simp [view, hdir, hd]
  | some j =>
      have hj : (fs.create e).data j = fs.data j :=
        Function.update_of_ne (Nat.ne_of_lt (fs.dir_lt hd)) _ _
      simp [view, hdir, hd, hj]

variable {fs : FS π ε β} {p : π} {e : ε}

@[simp] theorem openAppend_resolve (fs : FS π ε β) (p : π) :
    (fs.openAppend p).1.resolve = fs.resolve := by
  unfold openAppend
  split
  · rfl
  · split <;> rfl

/-- An entry that exists is opened as it is; otherwise a new empty file is
put behind it. -/
theorem view_openAppend_self (hp : fs.resolve p = some e) :
    (fs.openAppend p).1.view e = some ((fs.view e).getD (fs.next, [])) := by
  cases hd : fs.dir e with
  | none => simp [openAppend, hp, hd, view, create]
  | some i => simp [openAppend, hp, hd, view]

theorem view_openAppend_of_ne (hp : fs.resolve p ≠ some e) :
    (fs.openAppend p).1.view e = fs.view e := by
  unfold openAppend
  split
  · rfl
  · next e' he' =>
      split
      · rfl
      · exact view_create_of_ne fun h => hp (h ▸ he')

/-- The stream refers to the file the path names once it is opened. -/
theorem openAppend_snd (fs : FS π ε β) (p : π) :
    (fs.openAppend p).2 = (fs.openAppend p).1.ino p := by
  cases hp : fs.resolve p with
  | none => simp [openAppend, ino, hp]
  | some e =>
      cases hd : fs.dir e with
      | none => simp [openAppend, ino, hp, hd, create]
      | some i => simp [openAppend, ino, hp, hd]

/-- A path can be opened when it resolves. -/
theorem openAppend_isSome_iff (fs : FS π ε β) (p : π) :
    (fs.openAppend p).2.isSome ↔ (fs.resolve p).isSome := by
  cases hp : fs.resolve p with
  | none => simp [openAppend, hp]
  | some e => cases hd : fs.dir e <;> simp [openAppend, hp, hd]

theorem openAppend_eq_none (hp : fs.resolve p = none) : fs.openAppend p = (fs, none) := by
  simp [openAppend, hp]

theorem openAppend_dir (hp : fs.resolve p = some e) :
    (fs.openAppend p).1.dir e = (fs.openAppend p).2 := by
  rw [openAppend_snd, ino_eq (by rw [openAppend_resolve]; exact hp)]

/-- What is read through a path is not changed by opening it, except that a
path that named nothing names an empty file. -/
theorem read_openAppend (hp : fs.resolve p = some e) :
    (fs.openAppend p).1.read p = some ((fs.read p).getD []) := by
  rw [read_eq (by rw [openAppend_resolve]; exact hp), view_openAppend_self hp, read_eq hp]
  cases fs.view e <;> rfl

@[simp] theorem openTrunc_resolve (fs : FS π ε β) (p : π) :
    (fs.openTrunc p).1.resolve = fs.resolve := by
  rw [← openAppend_resolve fs p]
  unfold openTrunc
  split <;> simp_all

theorem openTrunc_snd_eq (fs : FS π ε β) (p : π) : (fs.openTrunc p).2 = (fs.openAppend p).2 := by
  unfold openTrunc
  split <;> simp_all

theorem openTrunc_dir_eq (fs : FS π ε β) (p : π) :
    (fs.openTrunc p).1.dir = (fs.openAppend p).1.dir := by
  unfold openTrunc
  split <;> simp_all

/-- Opening takes no entry away from its file. -/
theorem openAppend_dir_of_some {x : ε} {i : Ino} (hx : fs.dir x = some i) :
    (fs.openAppend p).1.dir x = some i := by
  unfold openAppend
  split
  · exact hx
  · next e he =>
      split
      · exact hx
      · next hnone =>
          have hne : x ≠ e := fun h => by rw [h, hnone] at hx; exact absurd hx (by simp)
          exact (Function.update_of_ne hne _ _).trans hx

theorem openTrunc_dir_of_some {x : ε} {i : Ino} (hx : fs.dir x = some i) :
    (fs.openTrunc p).1.dir x = some i := by
  rw [openTrunc_dir_eq, openAppend_dir_of_some hx]

/-- Opening a path puts a file behind its entry, and behind no other. -/
theorem openAppend_dir_eq_none_iff (fs : FS π ε β) (p : π) (x : ε) :
    (fs.openAppend p).1.dir x = none ↔ fs.dir x = none ∧ fs.resolve p ≠ some x := by
  unfold openAppend
  split
  · next hp => simp [hp]
  · next e hp =>
      rw [hp, ne_eq, Option.some.injEq]
      split
      · next i hd =>
          refine ⟨fun hnone => ⟨hnone, fun heq => ?_⟩, fun h => h.1⟩
          rw [heq, hnone] at hd
          exact absurd hd (by simp)
      · next hd =>
          by_cases hx : e = x
          · subst hx
            simp [create]
          · simp [create, Function.update_of_ne (Ne.symm hx), hx]

theorem openTrunc_dir_eq_none_iff (fs : FS π ε β) (p : π) (x : ε) :
    (fs.openTrunc p).1.dir x = none ↔ fs.dir x = none ∧ fs.resolve p ≠ some x := by
  rw [openTrunc_dir_eq, openAppend_dir_eq_none_iff]

/-- A number that is in use is not given to another file. -/
theorem openAppend_dir_iff {x : ε} {i : Ino} (hi : i < fs.next) :
    (fs.openAppend p).1.dir x = some i ↔ fs.dir x = some i := by
  refine ⟨fun h => ?_, openAppend_dir_of_some⟩
  unfold openAppend at h
  split at h
  · exact h
  · next e he =>
      split at h
      · exact h
      · simp only [create, Function.update_apply] at h
        split at h
        · exact absurd (Option.some.inj h) (Nat.ne_of_gt hi)
        · exact h

theorem openTrunc_dir_iff {x : ε} {i : Ino} (hi : i < fs.next) :
    (fs.openTrunc p).1.dir x = some i ↔ fs.dir x = some i := by
  rw [openTrunc_dir_eq, openAppend_dir_iff hi]

theorem openAppend_next_le (fs : FS π ε β) (p : π) : fs.next ≤ (fs.openAppend p).1.next := by
  unfold openAppend
  split
  · exact Nat.le_refl _
  · split
    · exact Nat.le_refl _
    · exact Nat.le_succ _

theorem openTrunc_next_le (fs : FS π ε β) (p : π) : fs.next ≤ (fs.openTrunc p).1.next := by
  have hle := openAppend_next_le fs p
  unfold openTrunc
  split
  · next heq => rw [heq] at hle; exact hle
  · next heq => rw [heq] at hle; exact hle

/-- The stream refers to the file the path names, and the file is empty. -/
theorem view_openTrunc_self (hp : fs.resolve p = some e) :
    ∃ i, (fs.openTrunc p).2 = some i ∧ (fs.openTrunc p).1.view e = some (i, []) ∧
      ∀ j, fs.dir e = some j → i = j := by
  obtain ⟨i, hi⟩ : ∃ i, (fs.openAppend p).2 = some i :=
    Option.isSome_iff_exists.mp ((openAppend_isSome_iff fs p).mpr (by simp [hp]))
  have hdir := openAppend_dir hp
  refine ⟨i, by rw [openTrunc_snd_eq, hi], ?_, ?_⟩
  · have htrunc : (fs.openTrunc p).1 = (fs.openAppend p).1.setData i [] := by
      rw [openTrunc]; split <;> simp_all
    rw [htrunc, view_eq_some_iff]
    exact ⟨hdir.trans hi, setData_data_self _ _ _⟩
  · intro j hj
    have : (fs.openAppend p).2 = some j := by simp [openAppend, hp, hj]
    exact Option.some.inj (hi.symm.trans this)

/-- The stream is open on the file of no other entry. -/
theorem openTrunc_dir_ne {x : ε} {i : Ino} (hp : fs.resolve p ≠ some x)
    (hi : (fs.openTrunc p).2 = some i) : (fs.openTrunc p).1.dir x ≠ some i := by
  intro hx
  cases hr : fs.resolve p with
  | none => simp [openTrunc, openAppend, hr] at hi
  | some e =>
      obtain ⟨j, hj, hself, -⟩ := view_openTrunc_self hr
      obtain rfl := Option.some.inj (hi.symm.trans hj)
      have hdir := (view_eq_some_iff.mp hself).1
      exact hp (hr.trans (congrArg some ((fs.openTrunc p).1.dir_inj hdir hx)))

theorem view_openTrunc_of_ne (hp : fs.resolve p ≠ some e) :
    (fs.openTrunc p).1.view e = fs.view e := by
  have hview := view_openAppend_of_ne hp
  cases hr : fs.resolve p with
  | none => simp [openTrunc, openAppend, hr]
  | some e' =>
      have hne : e ≠ e' := fun h => hp (h ▸ hr)
      unfold openTrunc
      split
      · next fs' i heq =>
          have hdir := openAppend_dir hr
          rw [heq] at hview hdir
          rw [view_setData_of_ne _ _, hview]
          exact fun h => hne (fs'.dir_inj h hdir)
      · next fs' heq => rwa [heq] at hview

/-! ### Renaming -/

/-- Give the file of the entry `e` to the entry `e'`, and drop `e`. -/
def move (fs : FS π ε β) (e e' : ε) : FS π ε β :=
  { fs with
    dir := Function.update (Function.update fs.dir e none) e' (fs.dir e)
    dir_lt := by
      intro x j hx
      rw [Function.update_apply] at hx
      split at hx
      · exact fs.dir_lt hx
      · rw [Function.update_apply] at hx
        split at hx
        · exact absurd hx (by simp)
        · exact fs.dir_lt hx
    dir_inj := by
      have hother : ∀ {x j}, Function.update fs.dir e none x = some j →
          x ≠ e ∧ fs.dir x = some j := by
        intro x j hx
        rw [Function.update_apply] at hx
        split at hx
        · exact absurd hx (by simp)
        · next hxe => exact ⟨hxe, hx⟩
      intro x y j hx hy
      rw [Function.update_apply] at hx hy
      split at hx <;> split at hy
      · next hxe hye => rw [hxe, hye]
      · exact absurd (fs.dir_inj (hother hy).2 hx) (hother hy).1
      · exact absurd (fs.dir_inj (hother hx).2 hy) (hother hx).1
      · exact fs.dir_inj (hother hx).2 (hother hy).2 }

/-- `rename p q`: the entry of `q` now is the file of `p`, and the entry of `p`
is gone. Nothing happens when both are the same entry; `none` when `p` names
nothing or a path does not resolve. -/
def rename (fs : FS π ε β) (p q : π) : Option (FS π ε β) :=
  match fs.resolve p, fs.resolve q with
  | some e, some e' =>
    if fs.dir e = none then none
    else if e = e' then some fs
    else some (fs.move e e')
  | _, _ => none

variable {q : π} {e' : ε} {fs' : FS π ε β}

/-- What a successful rename does to each entry. -/
theorem rename_cases (hp : fs.resolve p = some e) (hq : fs.resolve q = some e')
    (h : fs.rename p q = some fs') :
    fs'.resolve = fs.resolve ∧ fs'.data = fs.data ∧
      fs'.dir = if e = e' then fs.dir
        else Function.update (Function.update fs.dir e none) e' (fs.dir e) := by
  simp only [rename, hp, hq] at h
  split at h
  · exact absurd h (by simp)
  · split at h
    · next heq =>
        obtain rfl := Option.some.inj h
        exact ⟨rfl, rfl, by rw [if_pos heq]⟩
    · next hne =>
        obtain rfl := Option.some.inj h
        exact ⟨rfl, rfl, by rw [if_neg hne]; rfl⟩

/-- Renaming succeeds when both paths resolve and the first names a file. -/
theorem rename_isSome_iff :
    (fs.rename p q).isSome ↔ (fs.ino p).isSome ∧ (fs.resolve q).isSome := by
  unfold rename ino
  cases hp : fs.resolve p with
  | none => simp
  | some e =>
      cases hq : fs.resolve q with
      | none => simp
      | some e' =>
          cases hd : fs.dir e with
          | none => simp [hd]
          | some i =>
              simp only [hd, reduceCtorEq, if_false, Option.bind_some, Option.isSome_some, and_true]
              split <;> simp

theorem rename_resolve (h : fs.rename p q = some fs') : fs'.resolve = fs.resolve := by
  simp only [rename] at h
  split at h
  · split at h
    · exact absurd h (by simp)
    · split at h
      · rw [← Option.some.inj h]
      · rw [← Option.some.inj h]; rfl
  · exact absurd h (by simp)

theorem rename_next (h : fs.rename p q = some fs') : fs'.next = fs.next := by
  simp only [rename] at h
  split at h
  · split at h
    · exact absurd h (by simp)
    · split at h
      · rw [← Option.some.inj h]
      · rw [← Option.some.inj h]; rfl
  · exact absurd h (by simp)

/-- A rename succeeds between paths that resolve, the first to a file. -/
theorem rename_inv (h : fs.rename p q = some fs') :
    ∃ e e', fs.resolve p = some e ∧ fs.resolve q = some e' ∧ (fs.dir e).isSome := by
  obtain ⟨hp, hq⟩ := rename_isSome_iff.mp (by rw [h]; rfl)
  obtain ⟨e', he'⟩ := Option.isSome_iff_exists.mp hq
  cases hr : fs.resolve p with
  | none => simp [ino, hr] at hp
  | some e => exact ⟨e, e', rfl, he', by rwa [ino_eq hr] at hp⟩

theorem rename_dir_dst (hp : fs.resolve p = some e) (hq : fs.resolve q = some e')
    (h : fs.rename p q = some fs') : fs'.dir e' = fs.dir e := by
  obtain ⟨-, -, hdir⟩ := rename_cases hp hq h
  rw [hdir]
  by_cases he : e = e'
  · rw [if_pos he, he]
  · rw [if_neg he, Function.update_self]

/-- An entry keeps its file exactly when it is neither end of the rename, or
both. -/
theorem rename_dir_eq_iff {x : ε} {i : Ino} (hp : fs.resolve p = some e)
    (hq : fs.resolve q = some e') (h : fs.rename p q = some fs') (hx : fs.dir x = some i) :
    fs'.dir x = some i ↔ (e = x ↔ e' = x) := by
  obtain ⟨-, -, hdir⟩ := rename_cases hp hq h
  rw [hdir]
  by_cases he : e = e'
  · subst he
    simpa using hx
  · rw [if_neg he]
    by_cases hx' : e' = x
    · -- the entry now has the file of another entry
      subst hx'
      rw [Function.update_self]
      exact iff_of_false (fun hmoved => he (fs.dir_inj hmoved hx)) (by simp [he])
    · rw [Function.update_of_ne (Ne.symm hx')]
      by_cases hxe : e = x
      · subst hxe
        rw [Function.update_self]
        exact iff_of_false (by simp) (by simp [hx'])
      · rw [Function.update_of_ne (Ne.symm hxe)]
        exact iff_of_true hx (by simp [hxe, hx'])

/-- After a rename, no file is behind its first end, unless the ends are one entry. -/
theorem rename_dir_eq_none_iff (hp : fs.resolve p = some e) (hq : fs.resolve q = some e')
    (h : fs.rename p q = some fs') (x : ε) :
    fs'.dir x = none ↔ e' ≠ x ∧ (e = x ∨ fs.dir x = none) := by
  have hsome : fs.dir e ≠ none := by
    obtain ⟨y, -, hy, -, hdir⟩ := rename_inv h
    obtain rfl := Option.some.inj (hp.symm.trans hy)
    exact Option.isSome_iff_ne_none.mp hdir
  by_cases hx' : e' = x
  · rw [← hx', rename_dir_dst hp hq h]
    exact iff_of_false hsome fun hne => hne.1 rfl
  obtain ⟨-, -, hdir⟩ := rename_cases hp hq h
  rw [hdir, and_iff_right hx']
  by_cases he : e = e'
  · have hex : e ≠ x := he ▸ hx'
    rw [if_pos he, or_iff_right hex]
  · rw [if_neg he, Function.update_of_ne (Ne.symm hx')]
    by_cases hx : e = x
    · rw [hx, Function.update_self]
      exact iff_of_true rfl (Or.inl rfl)
    · rw [Function.update_of_ne (Ne.symm hx), or_iff_right hx]

theorem view_rename_dst (hp : fs.resolve p = some e) (hq : fs.resolve q = some e')
    (h : fs.rename p q = some fs') : fs'.view e' = fs.view e := by
  obtain ⟨-, hdata, -⟩ := rename_cases hp hq h
  unfold view
  rw [hdata, rename_dir_dst hp hq h]

theorem view_rename_src (hp : fs.resolve p = some e) (hq : fs.resolve q = some e') (hne : e ≠ e')
    (h : fs.rename p q = some fs') : fs'.view e = none := by
  obtain ⟨-, -, hdir⟩ := rename_cases hp hq h
  rw [view_eq_none_iff, hdir, if_neg hne, Function.update_of_ne hne, Function.update_self]

theorem view_rename_of_ne {x : ε} (hp : fs.resolve p ≠ some x) (hq : fs.resolve q ≠ some x)
    (h : fs.rename p q = some fs') : fs'.view x = fs.view x := by
  obtain ⟨e, e', he, he', -⟩ := rename_inv h
  obtain ⟨-, hdata, hdir⟩ := rename_cases he he' h
  have hxe : x ≠ e := fun hx => hp (hx ▸ he)
  have hxe' : x ≠ e' := fun hx => hq (hx ▸ he')
  have hx : fs'.dir x = fs.dir x := by
    rw [hdir]
    split
    · rfl
    · rw [Function.update_of_ne hxe', Function.update_of_ne hxe]
  unfold view
  rw [hdata, hx]

end opening

/-! ### A file system in which every path opens -/

/-- The empty file system over path strings that all resolve, each through
`entry`. -/
def empty (entry : π → ε) : FS π ε β where
  resolve p := some (entry p)
  dir _ := none
  data _ := []
  next := 0
  dir_lt h := absurd h (by simp)
  dir_inj h := absurd h (by simp)

end FS

end Posix
