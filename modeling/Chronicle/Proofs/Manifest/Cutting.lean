import Chronicle.Manifest.Build
import Mathlib.Algebra.Order.Floor.Div
import Mathlib.Tactic.Lemma

/-!
Where a content is cut.

Chunk number `i` starts at `i` times the chunk size and goes on for that size or to the end of the
content, whichever comes first, and there are as many chunks as it takes to reach the end.

The counters of the cutting loop are words: the index has 32 bits, the offset 64. For contents of fewer
than `2 ^ 63` bytes the offset does not wrap around, not even where it steps over the end, and the loop
ends; as long as there are no more than `2 ^ 32` chunks, no index is used twice.
-/

namespace Chronicle.Manifest

/-- How many chunks of a size it takes. -/
def chunkCount (size total : Nat) : Nat := total ⌈/⌉ size

lemma chunkCount_le_iff {size total i : Nat} (hsize : 0 < size) :
    chunkCount size total ≤ i ↔ total ≤ i * size := by
  rw [chunkCount, ceilDiv_le_iff_le_mul hsize, Nat.mul_comm]

lemma lt_chunkCount_iff {size total i : Nat} (hsize : 0 < size) :
    i < chunkCount size total ↔ i * size < total := by
  rw [← Nat.not_le, chunkCount_le_iff hsize, Nat.not_le]

/-- The bytes of chunk number `i`. -/
def bytesOf (size : Nat) (content : Bytes) (i : Nat) : Bytes := (content.drop (i * size)).take size

/-- What is said about chunk number `i`. -/
def entryOf (options : Options) (content : Bytes) (i : Nat) : ChunkInfo where
  index := UInt32.ofNat i
  hash := Sha256.hex (bytesOf options.chunkSize.toNat content i)
  offset := UInt64.ofNat (i * options.chunkSize.toNat)
  size := UInt64.ofNat (bytesOf options.chunkSize.toNat content i).length
  compression := options.compression

lemma length_bytesOf (size : Nat) (content : Bytes) (i : Nat) :
    (bytesOf size content i).length = min size (content.length - i * size) := by
  rw [bytesOf, List.length_take, List.length_drop]

lemma cutFrom_eq {options : Options} {content : Bytes} (hsize : 0 < options.chunkSize.toNat)
    {first count : Nat}
    (hcount : chunkCount options.chunkSize.toNat content.length = first + count) :
    cutFrom options.chunkSize.toNat options.compression first (first * options.chunkSize.toNat)
        (content.drop (first * options.chunkSize.toNat)) =
      (List.range' first count).map (entryOf options content) := by
  induction count generalizing first with
  | zero =>
    have hend : content.length ≤ first * options.chunkSize.toNat :=
      (chunkCount_le_iff hsize).mp (by omega)
    rw [cutFrom, if_pos (Or.inl (List.drop_eq_nil_of_le hend))]
    rfl
  | succ count ih =>
    have hmore : first * options.chunkSize.toNat < content.length :=
      (lt_chunkCount_iff hsize).mp (by omega)
    have hleft : content.drop (first * options.chunkSize.toNat) ≠ [] := by
      rw [ne_eq, List.drop_eq_nil_iff]
      omega
    have hnext : first * options.chunkSize.toNat + options.chunkSize.toNat =
        (first + 1) * options.chunkSize.toNat := (Nat.succ_mul _ _).symm
    rw [cutFrom, if_neg (by simp [hleft, Nat.ne_of_gt hsize]), List.drop_drop, hnext,
      ih (by omega), List.range'_succ, List.map_cons]
    rfl

/-- **The chunks of a content, in closed form.** -/
theorem cut_eq {options : Options} (hsize : 0 < options.chunkSize.toNat) (content : Bytes) :
    cut options content =
      (List.range (chunkCount options.chunkSize.toNat content.length)).map
        (entryOf options content) := by
  have hall : chunkCount options.chunkSize.toNat content.length = 0 + chunkCount _ _ :=
    (Nat.zero_add _).symm
  have h := cutFrom_eq hsize hall
  rwa [Nat.zero_mul, List.drop_zero, ← List.range_eq_range'] at h

lemma flatMap_bytesOf {size : Nat} (content : Bytes) (count : Nat) :
    (List.range count).flatMap (bytesOf size content) = content.take (count * size) := by
  induction count with
  | zero => simp
  | succ count ih =>
    rw [List.range_succ, List.flatMap_append, ih, List.flatMap_singleton, bytesOf, Nat.succ_mul,
      List.take_add]

/-! ### The loop with its counters -/

/-- What the loop says about the chunk at its counters. -/
def entryAt (options : Options) (content : Bytes) (index : UInt32) (offset : UInt64) : ChunkInfo :=
  let size := min options.chunkSize (UInt64.ofNat content.length - offset)
  { index := index
    hash := Sha256.hex ((content.drop offset.toNat).take size.toNat)
    offset := offset
    size := size
    compression := options.compression }

/-- The cutting loop from these values of its counters on. Where the offset has come to the end of the
content the loop is over; before that it takes a turn. A derivation is a run that ends. -/
inductive Loops (options : Options) (content : Bytes) :
    UInt32 → UInt64 → List ChunkInfo → Prop
  | over {index : UInt32} {offset : UInt64} (h : ¬ offset < UInt64.ofNat content.length) :
      Loops options content index offset []
  | turn {index : UInt32} {offset : UInt64} {rest : List ChunkInfo}
      (h : offset < UInt64.ofNat content.length)
      (next : Loops options content (index + 1) (offset + options.chunkSize) rest) :
      Loops options content index offset (entryAt options content index offset :: rest)

/-- What has to hold of sizes and numbers for the counters to count. -/
structure Countable (options : Options) (content : Bytes) : Prop where
  size_pos : 0 < options.chunkSize.toNat
  length_lt : content.length < 2 ^ 63
  count_le : chunkCount options.chunkSize.toNat content.length ≤ 2 ^ 32

namespace Countable

variable {options : Options} {content : Bytes} {i : Nat}

/-- One chunk may be larger than the content; where there are two, the size is below the length. -/
lemma mul_lt (h : Countable options content)
    (hi : i ≤ chunkCount options.chunkSize.toNat content.length) :
    i * options.chunkSize.toNat < 2 ^ 64 := by
  have hlength := h.length_lt
  have hword := options.chunkSize.toNat_lt
  rcases i with _ | i
  · omega
  have hi' := (lt_chunkCount_iff h.size_pos).mp hi
  rw [Nat.succ_mul]
  rcases i with _ | i
  · omega
  · have : options.chunkSize.toNat ≤ (i + 1) * options.chunkSize.toNat :=
      Nat.le_mul_of_pos_left _ (Nat.succ_pos i)
    omega

lemma toNat_offset (h : Countable options content)
    (hi : i ≤ chunkCount options.chunkSize.toNat content.length) :
    (UInt64.ofNat (i * options.chunkSize.toNat)).toNat = i * options.chunkSize.toNat :=
  UInt64.toNat_ofNat_of_lt' (h.mul_lt hi)

lemma toNat_length (h : Countable options content) :
    (UInt64.ofNat content.length).toNat = content.length :=
  UInt64.toNat_ofNat_of_lt' (Nat.lt_trans h.length_lt (by decide))

lemma toNat_size (h : Countable options content) (i : Nat) :
    (entryOf options content i).size.toNat =
      min options.chunkSize.toNat (content.length - i * options.chunkSize.toNat) := by
  have hlength := h.length_lt
  change (UInt64.ofNat (bytesOf options.chunkSize.toNat content i).length).toNat = _
  rw [length_bytesOf, UInt64.toNat_ofNat_of_lt']
  change _ < 2 ^ 64
  omega

lemma toNat_index (h : Countable options content)
    (hi : i < chunkCount options.chunkSize.toNat content.length) :
    (entryOf options content i).index.toNat = i :=
  UInt32.toNat_ofNat_of_lt' (Nat.lt_of_lt_of_le hi h.count_le)

lemma entryAt_eq (h : Countable options content)
    (hi : i < chunkCount options.chunkSize.toNat content.length) :
    entryAt options content (UInt32.ofNat i) (UInt64.ofNat (i * options.chunkSize.toNat)) =
      entryOf options content i := by
  have hoffset := h.toNat_offset (Nat.le_of_lt hi)
  have hlt := (lt_chunkCount_iff h.size_pos).mp hi
  have hleft : (UInt64.ofNat content.length -
      UInt64.ofNat (i * options.chunkSize.toNat)).toNat =
        content.length - i * options.chunkSize.toNat := by
    rw [UInt64.toNat_sub_of_le, h.toNat_length, hoffset]
    rw [UInt64.le_iff_toNat_le, h.toNat_length, hoffset]
    omega
  have hsize : min options.chunkSize (UInt64.ofNat content.length -
      UInt64.ofNat (i * options.chunkSize.toNat)) = (entryOf options content i).size := by
    rw [← UInt64.toNat_inj, UInt64.toNat_min, hleft, h.toNat_size]
  have hbytes : (content.drop (i * options.chunkSize.toNat)).take
      (entryOf options content i).size.toNat = bytesOf options.chunkSize.toNat content i := by
    rw [h.toNat_size, ← List.length_drop, ← List.take_take, List.take_length]
    rfl
  simp only [entryAt, hsize, hoffset, hbytes]
  rfl

lemma loops_from (h : Countable options content) {first count : Nat}
    (hcount : chunkCount options.chunkSize.toNat content.length = first + count) :
    Loops options content (UInt32.ofNat first)
      (UInt64.ofNat (first * options.chunkSize.toNat))
      ((List.range' first count).map (entryOf options content)) := by
  induction count generalizing first with
  | zero =>
    refine .over ?_
    have hend : content.length ≤ first * options.chunkSize.toNat :=
      (chunkCount_le_iff h.size_pos).mp (by omega)
    rw [UInt64.lt_iff_toNat_lt, h.toNat_length, h.toNat_offset (by omega)]
    omega
  | succ count ih =>
    have hi : first < chunkCount options.chunkSize.toNat content.length := by omega
    rw [List.range'_succ, List.map_cons, ← h.entryAt_eq hi]
    refine .turn ?_ ?_
    · rw [UInt64.lt_iff_toNat_lt, h.toNat_length, h.toNat_offset (Nat.le_of_lt hi)]
      exact (lt_chunkCount_iff h.size_pos).mp hi
    · have hindex : UInt32.ofNat first + 1 = UInt32.ofNat (first + 1) :=
        (UInt32.ofNat_add first 1).symm
      have hoffset : UInt64.ofNat (first * options.chunkSize.toNat) + options.chunkSize =
          UInt64.ofNat ((first + 1) * options.chunkSize.toNat) := by
        rw [Nat.succ_mul, UInt64.ofNat_add, UInt64.ofNat_toNat]
      rw [hindex, hoffset]
      exact ih (by omega)

/-- **The loop ends**, and what it lists is the closed form. -/
theorem loops (h : Countable options content) : Loops options content 0 0 (cut options content) := by
  have hloops := h.loops_from (Nat.zero_add _).symm
  rw [Nat.zero_mul, ← List.range_eq_range', ← cut_eq h.size_pos] at hloops
  exact hloops

end Countable

end Chronicle.Manifest
