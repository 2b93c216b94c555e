import Taproot.Keyspace
import Taproot.Library.Blocks
import Taproot.Library.Codec

/-!
# Taproot.Snapshot

The **binary snapshot** can be read back, though nothing in the program does.

`decode` is the reader: the first byte tells the three layouts apart, since a
snapshot without a flag starts with a `T`; then come the entries, each length
before its bytes. Keys and values may hold any bytes, and the entries may come
in any order, for the map they make is the same.
-/

namespace Taproot

open Posix Journal Codec

namespace Log

/-! ### Numbers -/

/-- The number that bytes stand for, least significant first. -/
def leNat : Bytes → Nat
  | [] => 0
  | b :: bs => b.toNat + 256 * leNat bs

@[simp] theorem length_leBytes (width n : Nat) : (leBytes width n).length = width := by
  induction width generalizing n with
  | zero => rfl
  | succ width ih => rw [leBytes, List.length_cons, ih]

theorem leNat_leBytes {width n : Nat} (h : n < 256 ^ width) : leNat (leBytes width n) = n := by
  induction width generalizing n with
  | zero =>
      rw [Nat.pow_zero] at h
      rw [leBytes, leNat]
      omega
  | succ width ih =>
      have hrest : n / 256 < 256 ^ width := by
        rw [Nat.pow_succ] at h
        exact Nat.div_lt_of_lt_mul (by omega)
      have hbyte : (UInt8.ofNat (n % 256)).toNat = n % 256 := by simp
      rw [leBytes, leNat, ih hrest, hbyte]
      omega

/-- Reading a `size_t`. -/
def readSize : Decoder UInt8 Nat := (block 8).map leNat

theorem reads_readSize {n : Nat} (h : n < SIZE_MOD) : Reads readSize sizeBytes n := by
  intro rest
  have hblock := block_append (sizeBytes n) rest
  rw [show (sizeBytes n).length = 8 from length_leBytes 8 n] at hblock
  have hn : leNat (sizeBytes n) = n := leNat_leBytes (Nat.lt_of_lt_of_eq h (by decide))
  rw [readSize, Decoder.map, hblock]
  show some (leNat (sizeBytes n), rest) = _
  rw [hn]

/-! ### The serialized state -/

/-- One entry: two lengths, each before its bytes. -/
def readEntry : Decoder UInt8 (Bytes × Bytes) := pair (sized readSize) (sized readSize)

/-- The bytes of an entry. -/
def entryBytes (p : Bytes × Bytes) : Bytes :=
  (sizeBytes p.1.length ++ p.1) ++ (sizeBytes p.2.length ++ p.2)

theorem reads_readEntry {p : Bytes × Bytes} (hk : p.1.length < SIZE_MOD)
    (hv : p.2.length < SIZE_MOD) : Reads readEntry entryBytes p :=
  reads_pair (reads_sized (reads_readSize hk)) (reads_sized (reads_readSize hv))

/-- Reading what `serialize` writes: the magic, the number of entries, and the
entries. -/
def readState : Decoder UInt8 (List (Bytes × Bytes)) :=
  marked (ascii "TDB") (counted readSize readEntry)

/-- The bytes of a list of entries. -/
def stateBytes (ps : List (Bytes × Bytes)) : Bytes :=
  ascii "TDB" ++ (sizeBytes ps.length ++ ps.flatMap entryBytes)

theorem reads_readState {ps : List (Bytes × Bytes)} (hsize : (stateBytes ps).length < SIZE_MOD) :
    Reads readState stateBytes ps := by
  have hentries : (ps.flatMap entryBytes).length < SIZE_MOD := by
    refine Nat.lt_of_le_of_lt ?_ hsize
    rw [stateBytes, List.length_append, List.length_append, ← Nat.add_assoc]
    exact Nat.le_add_left _ _
  have hcount : ps.length < SIZE_MOD := by
    refine Nat.lt_of_le_of_lt (length_le_length_flatMap (fun p => ?_) ps) hentries
    rw [entryBytes, List.length_append, List.length_append, sizeBytes, length_leBytes]
    omega
  have heach : ∀ p ∈ ps, Reads readEntry entryBytes p := by
    intro p hp
    have hle : (entryBytes p).length ≤ (ps.flatMap entryBytes).length := length_le_flatMap hp
    rw [entryBytes, List.length_append, List.length_append, List.length_append] at hle
    exact reads_readEntry (by omega) (by omega)
  exact reads_marked _ (reads_counted (reads_readSize hcount) heach)

/-- The entries of a map, in the order in which they are walked. -/
def entryList (env : Env) (state : Store) : List (Bytes × Bytes) :=
  (env.iteration.entries state).map fun e => (e.1, e.2)

theorem serialize_eq (env : Env) (state : Store) :
    serialize env state = stateBytes (entryList env state) := by
  have hcard : state.entries.card = (entryList env state).length := by
    rw [entryList, List.length_map, ← env.iteration.coe_entries state]
    rfl
  rw [serialize, stateBytes, hcard, List.append_assoc, entryList, List.flatMap_map]
  simp [entryBytes]

/-- The map with the entries of a list. -/
def storeOf (ps : List (Bytes × Bytes)) : Store := replay ∅ (ps.map fun p => .put p.1 p.2)

theorem storeOf_entryList (env : Env) (state : Store) : storeOf (entryList env state) = state := by
  rw [storeOf, entryList, List.map_map]
  exact replay_puts_entries env.iteration state

/-- Reading a serialized state. -/
def unserialize (bytes : Bytes) : Option Store := (whole readState bytes).map storeOf

theorem unserialize_serialize {env : Env} {state : Store}
    (hsize : (serialize env state).length < SIZE_MOD) :
    unserialize (serialize env state) = some state := by
  rw [serialize_eq] at hsize ⊢
  rw [unserialize, whole_eq (reads_readState hsize), Option.map_some, storeOf_entryList]

/-! ### The file -/

/-- **The reader of a snapshot.** -/
def decode (decompress : Nat → Bytes → Bytes) : Bytes → Option Store
  | [] => none
  | c :: rest =>
    if c = 0 then unserialize rest
    else if c = 1 then (readSize rest).bind fun p => unserialize (decompress p.1 p.2)
    else unserialize (c :: rest)

/-- **The three layouts** of a serialized state: as it is, after a flag 0, and
compressed after a flag 1 and its size. -/
inductive Layout (decompress : Nat → Bytes → Bytes) (serialized : Bytes) : Bytes → Prop
  | plain : Layout decompress serialized serialized
  | uncompressed : Layout decompress serialized (0 :: serialized)
  | compressed {out : Bytes} : decompress serialized.length out = serialized →
      Layout decompress serialized (1 :: (sizeBytes serialized.length ++ out))

/-- The reader tells the layouts apart by their first byte. -/
theorem decode_layout {decompress : Nat → Bytes → Bytes} {env : Env} {state : Store} {file : Bytes}
    (hsize : (serialize env state).length < SIZE_MOD)
    (h : Layout decompress (serialize env state) file) : decode decompress file = some state := by
  have hread := unserialize_serialize hsize
  cases h with
  | plain =>
      -- without a flag the first byte is the `T` of the magic
      have hmagic : ∃ rest, serialize env state = 84 :: rest := by
        rw [serialize_eq]
        exact ⟨_, rfl⟩
      obtain ⟨rest, hrest⟩ := hmagic
      rw [hrest] at hread ⊢
      rw [decode, if_neg (by decide), if_neg (by decide), hread]
  | uncompressed => rw [decode, if_pos rfl, hread]
  | compressed hout =>
      rw [decode, if_neg (by decide), if_pos rfl, reads_readSize hsize, Option.bind_some, hout,
        hread]

/-- LZ4 gives the text back from what `compress` makes of it and its size. -/
def Lossless (decompress : Nat → Bytes → Bytes) (lz4 : Lz4) (serialized : Bytes) : Prop :=
  ∃ out, compress lz4 serialized = .ok out ∧ decompress serialized.length out = serialized

/-- A snapshot whose file can be opened, whose sizes fit in a `size_t` and
whose compression, if it is tried, is lossless. -/
structure Snapshot (decompress : Nat → Bytes → Bytes) (env : Env) (fs : Files) (log : Log)
    (state : Store) : Prop where
  opens : (fs.resolve log.dbFilepath).isSome
  size : (serialize env state).length < SIZE_MOD
  lossless : COMPRESSION_THRESHOLD < (serialize env state).length →
    Lossless decompress env.lz4 (serialize env state)

variable {decompress : Nat → Bytes → Bytes} {env : Env} {fs : Files} {log : Log} {state : Store}

/-- The text of a snapshot has one of the layouts. -/
theorem snapshotText_layout (h : COMPRESSION_THRESHOLD < (serialize env state).length →
    Lossless decompress env.lz4 (serialize env state)) :
    ∃ text, snapshotText env state = .ok text ∧ Layout decompress (serialize env state) text := by
  rw [snapshotText]
  by_cases hthreshold : COMPRESSION_THRESHOLD < (serialize env state).length
  · obtain ⟨out, hout, hback⟩ := h hthreshold
    rw [if_pos hthreshold, hout]
    refine ⟨_, rfl, ?_⟩
    dsimp only
    -- what the compression does not make shorter is written as it is, after a flag 0
    by_cases heffective : out.length < (serialize env state).length
    · rw [if_pos heffective]
      exact .compressed hback
    · rw [if_neg heffective]
      exact .uncompressed
  · rw [if_neg hthreshold]
    exact ⟨_, rfl, .plain⟩

/-- Such a snapshot returns, and its file has one of the layouts. -/
theorem writeBinarySnapshot_layout (h : Snapshot decompress env fs log state) :
    (log.writeBinarySnapshot env fs state).2 = .ok () ∧
      ∃ file, (log.writeBinarySnapshot env fs state).1.read log.dbFilepath = some file ∧
        Layout decompress (serialize env state) file := by
  obtain ⟨e, he⟩ := Option.isSome_iff_exists.mp h.opens
  obtain ⟨text, htext, hlayout⟩ := snapshotText_layout h.lossless
  refine ⟨?_, text, ?_, hlayout⟩
  · rw [(view_writeBinarySnapshot_self he env state).2, htext]
    rfl
  · rw [read_writeBinarySnapshot, he, htext]
    rfl

/-- **The snapshot format is uniquely decodable**: one reader gives back the
map from the file of every snapshot, however the map was walked and whichever
layout was picked, so that two different maps never give the same file. -/
theorem writeBinarySnapshot_decodable (decompress : Nat → Bytes → Bytes) :
    (∀ env fs log state, Snapshot decompress env fs log state →
      ∃ file, (log.writeBinarySnapshot env fs state).1.read log.dbFilepath = some file ∧
        decode decompress file = some state) ∧
    ∀ env fs log state env' fs' log' state',
      Snapshot decompress env fs log state → Snapshot decompress env' fs' log' state' →
      (log.writeBinarySnapshot env fs state).1.read log.dbFilepath =
        (log'.writeBinarySnapshot env' fs' state').1.read log'.dbFilepath → state = state' := by
  have hdecodes (env fs log state) (h : Snapshot decompress env fs log state) :
      ∃ file, (log.writeBinarySnapshot env fs state).1.read log.dbFilepath = some file ∧
        decode decompress file = some state := by
    obtain ⟨-, file, hfile, hlayout⟩ := writeBinarySnapshot_layout h
    exact ⟨file, hfile, decode_layout h.size hlayout⟩
  refine ⟨hdecodes, ?_⟩
  -- one reader gives both maps back from the file they share
  intro env fs log state env' fs' log' state' h h' hsame
  obtain ⟨file, hfile, hdecode⟩ := hdecodes env fs log state h
  obtain ⟨file', hfile', hdecode'⟩ := hdecodes env' fs' log' state' h'
  rw [hfile, hfile'] at hsame
  rw [Option.some.inj hsame] at hdecode
  exact Option.some.inj (hdecode.symm.trans hdecode')

/-! ### A run of zeros -/

theorem length_serialize_singleton (env : Env) (k v : Bytes) :
    (serialize env ((∅ : Store).insert k v)).length = 27 + k.length + v.length := by
  have hmagic : (ascii "TDB").length = 3 := rfl
  rw [serialize_eq, entryList, Iteration.entries_singleton]
  simp [stateBytes, entryBytes, sizeBytes, hmagic]
  omega

/-- LZ4, as far as it is known of one text: what it makes of it is `block`. -/
def compressing (text block : Bytes) : Lz4 :=
  ⟨fun size => size + size / 255 + 16,
    fun input _ _ => if input = text then (block.length, block) else (0, [])⟩

theorem compress_compressing {text block : Bytes} (htext : text ≠ []) (hblock : block ≠ []) :
    compress (compressing text block) text = .ok block := by
  have hpos : ¬(block.length : Int) ≤ 0 := by
    have hlength := List.length_pos_iff.mpr hblock
    omega
  simp only [compress, compressing, if_neg htext, if_pos, if_neg hpos, Int.toNat_natCast]
  rw [List.takeD_eq_take _ (Nat.le_refl _), List.take_length]

/-- A value of zeros that brings a snapshot over the threshold. -/
def zeros : Bytes := List.replicate COMPRESSION_THRESHOLD 0

/-- A snapshot of it under the key `k`, up to the last byte that is not zero. -/
def zerosFront : Bytes :=
  ascii "TDB" ++ sizeBytes 1 ++ sizeBytes 1 ++ ascii "k" ++ (sizeBytes COMPRESSION_THRESHOLD).take 3

/-- What LZ4 finds in it: the number of entries is a one and zeros, the size of the key is
the same again, and so are the zeros in the size of the value. -/
def zerosMatches : List Blocks.Sequence :=
  [⟨ascii "TDB" ++ [1, 0], 1, 6⟩, ⟨[], 8, 8⟩, ⟨ascii "k" ++ [0, 0, 160], 18, 6⟩]

/-- And then all others are zeros. -/
def zerosRun : Blocks.Sequence := ⟨[], 2, COMPRESSION_THRESHOLD - 6⟩

/-- The block that LZ4 makes of it; the last five bytes of a block are always literals. -/
def zerosBlock : Bytes := Blocks.bytes (zerosMatches ++ [zerosRun]) (List.replicate 5 0)

theorem serialize_zeros (env : Env) :
    serialize env ((∅ : Store).insert (ascii "k") zeros) =
      zerosFront ++ List.replicate (COMPRESSION_THRESHOLD + 5) 0 := by
  have hsize : sizeBytes zeros.length = (sizeBytes COMPRESSION_THRESHOLD).take 3 ++
      List.replicate 5 0 := by
    rw [zeros, List.length_replicate]
    decide
  rw [serialize_eq, entryList, Iteration.entries_singleton]
  simp only [stateBytes, entryBytes, List.map_cons, List.map_nil, List.flatMap_singleton,
    List.length_singleton, hsize, zerosFront]
  rw [Nat.add_comm, List.replicate_add, zeros]
  simp [ascii]

/-- The matches give the zeros back. -/
theorem expand_zerosBlock :
    Blocks.expand zerosBlock.length [] zerosBlock =
      zerosFront ++ List.replicate (COMPRESSION_THRESHOLD + 5) 0 := by
  have hfront : zerosMatches.foldl Blocks.Sequence.extend [] =
      zerosFront ++ List.replicate 6 0 := by
    decide
  rw [zerosBlock, Blocks.expand_bytes (by decide), List.foldl_append, hfront, List.foldl_cons,
    List.foldl_nil, Blocks.Sequence.extend, zerosRun]
  dsimp only
  rw [List.append_nil, Blocks.copyMatch_run (by decide) (by decide), List.append_assoc,
    ← List.replicate_add]
  congr 2

theorem length_zerosBlock : zerosBlock.length = 41148 := by
  simp only [zerosBlock, Blocks.bytes, zerosMatches, zerosRun, List.cons_append, List.nil_append,
    List.flatMap_cons, List.flatMap_nil,
    List.length_append, List.length_nil, Blocks.Sequence.length_bytes, Blocks.length_lastBytes,
    Blocks.length_lengthBytes, List.length_replicate]
  decide

/-- A small map, and one that LZ4 makes shorter. -/
theorem writeBinarySnapshot_decodable_zeros :
    let decompress := fun (_ : Nat) (block : Bytes) => Blocks.expand block.length [] block
    let small := (∅ : Store).insert (ascii "k") (ascii "1")
    let large := (∅ : Store).insert (ascii "k") zeros
    let env := { Env.calm with lz4 := compressing (serialize Env.calm large) zerosBlock }
    let log := Log.opened (ascii "a") 0
    (∃ file, (log.writeBinarySnapshot env blankFiles small).1.read log.dbFilepath = some file ∧
      decode decompress file = some small) ∧
    (∃ file, (log.writeBinarySnapshot env blankFiles large).1.read log.dbFilepath = some file ∧
      decode decompress file = some large) ∧
    (log.writeBinarySnapshot env blankFiles large).1.read log.dbFilepath =
      some (1 :: (sizeBytes (28 + COMPRESSION_THRESHOLD) ++ zerosBlock)) ∧
    (log.writeBinarySnapshot env blankFiles small).1.read log.dbFilepath ≠
      (log.writeBinarySnapshot env blankFiles large).1.read log.dbFilepath := by
  intro decompress small large env log
  have htext : serialize env large = zerosFront ++ List.replicate (COMPRESSION_THRESHOLD + 5) 0 :=
    serialize_zeros env
  have hlength (env : Env) : (serialize env large).length = 28 + COMPRESSION_THRESHOLD := by
    have hzeros : zeros.length = COMPRESSION_THRESHOLD := List.length_replicate
    rw [length_serialize_singleton env (ascii "k") zeros, hzeros]
    rfl
  have hblock : zerosBlock ≠ [] :=
    List.ne_nil_of_length_pos (by rw [length_zerosBlock]; decide)
  have hcompress : compress env.lz4 (serialize env large) = .ok zerosBlock :=
    compress_compressing (List.ne_nil_of_length_pos (by rw [hlength]; decide)) hblock
  have hsmall : Snapshot decompress env blankFiles log small := by
    have hlength := length_serialize_singleton env (ascii "k") (ascii "1")
    exact ⟨rfl, by rw [hlength]; decide, fun h => absurd h (by rw [hlength]; decide)⟩
  have hlarge : Snapshot decompress env blankFiles log large :=
    ⟨rfl, by rw [hlength]; decide,
      fun _ => ⟨zerosBlock, hcompress, expand_zerosBlock.trans htext.symm⟩⟩
  obtain ⟨hdecodes, hinj⟩ := writeBinarySnapshot_decodable decompress
  refine ⟨hdecodes _ _ _ _ hsmall, hdecodes _ _ _ _ hlarge, ?_, fun hsame => ?_⟩
  · -- the block is shorter, so the flag is set
    rw [read_writeBinarySnapshot, snapshotText, if_pos (by rw [hlength]; decide), hcompress]
    dsimp only [Except.map]
    rw [if_pos (by rw [hlength, length_zerosBlock]; decide), hlength]
    rfl
  · have hlookup := congrArg (Finmap.lookup (ascii "k"))
      (hinj _ _ _ _ _ _ _ _ hsmall hlarge hsame)
    rw [Finmap.lookup_insert, Finmap.lookup_insert] at hlookup
    have hvalues := congrArg List.length (Option.some.inj hlookup)
    rw [zeros, List.length_replicate] at hvalues
    exact absurd hvalues (by decide)

end Log

end Taproot
