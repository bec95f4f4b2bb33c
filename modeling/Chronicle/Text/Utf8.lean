import Chronicle.Bytes

/-!
The form of UTF-8 characters.

A first byte says how many bytes have to follow and narrows the range of the one behind it; the others
lie between 0x80 and 0xBF. Bytes that start a character and then break off count as one broken piece.
-/

namespace Chronicle.Utf8

/-- How many bytes follow a first byte of a longer character, and the range of the one behind it. -/
def following? (b : UInt8) : Option (Nat × UInt8 × UInt8) :=
  if 0xC2 ≤ b && b ≤ 0xDF then some (1, 0x80, 0xBF)
  else if b = 0xE0 then some (2, 0xA0, 0xBF)
  else if b = 0xED then some (2, 0x80, 0x9F)
  else if 0xE1 ≤ b && b ≤ 0xEF then some (2, 0x80, 0xBF)
  else if b = 0xF0 then some (3, 0x90, 0xBF)
  else if b = 0xF4 then some (3, 0x80, 0x8F)
  else if 0xF1 ≤ b && b ≤ 0xF3 then some (3, 0x80, 0xBF)
  else none

/-- How many of the wanted bytes are there, the first one lying between the bounds. -/
def present : Nat → UInt8 → UInt8 → Bytes → Nat
  | count + 1, low, high, b :: rest =>
    if low ≤ b && b ≤ high then present count 0x80 0xBF rest + 1 else 0
  | _, _, _, _ => 0

/-- What a text starts with, by the number of bytes behind the first one. -/
inductive Piece
  | whole (behind : Nat)
  | broken (behind : Nat)
  deriving DecidableEq, Repr

def piece (b : UInt8) (rest : Bytes) : Piece :=
  if b < 0x80 then .whole 0
  else match following? b with
    | none => .broken 0
    | some (count, low, high) =>
      let found := present count low high rest
      if found = count then .whole count else .broken found

/-- Whether a text consists of whole characters, the next `skip` bytes being known to. -/
def validFrom : Nat → Bytes → Bool
  | _, [] => true
  | skip + 1, _ :: rest => validFrom skip rest
  | 0, b :: rest =>
    match piece b rest with
    | .whole behind => validFrom behind rest
    | .broken _ => false

def isValid (text : Bytes) : Bool := validFrom 0 text

/-- The character of a code point, which must not be above 0x10FFFF. -/
def encode (code : Nat) : Bytes :=
  let tail (n : Nat) : UInt8 := (0x80 + n % 64).toUInt8
  if code < 0x80 then [code.toUInt8]
  else if code < 0x800 then [(0xC0 + code / 64).toUInt8, tail code]
  else if code < 0x10000 then [(0xE0 + code / 4096).toUInt8, tail (code / 64), tail code]
  else [(0xF0 + code / 262144).toUInt8, tail (code / 4096), tail (code / 64), tail code]

/-- What stands for a broken piece. -/
def replacement : Bytes := [0xEF, 0xBF, 0xBD]

theorem ascii_not_mem_take_present {low : UInt8} (hlow : 0x80 ≤ low) (high : UInt8)
    (count : Nat) (rest : Bytes) :
    ∀ b ∈ rest.take (present count low high rest), 0x80 ≤ b := by
  induction count generalizing low high rest with
  | zero => simp [present]
  | succ count ih =>
    cases rest with
    | nil => simp
    | cons c rest =>
      simp only [present]
      split
      · next h =>
        simp only [Bool.and_eq_true, decide_eq_true_eq] at h
        intro b hb
        simp only [List.take_succ_cons, List.mem_cons] at hb
        rcases hb with rfl | hb
        · exact UInt8.le_trans hlow h.1
        · exact ih (by decide) 0xBF rest b hb
      · simp

theorem low_of_following? {b : UInt8} {count : Nat} {low high : UInt8}
    (h : following? b = some (count, low, high)) : 0x80 ≤ low := by
  unfold following? at h
  iterate 7
    split at h
    · cases h
      decide
  cases h

/-- The bytes of a character behind its first one are not ASCII. -/
theorem high_of_piece {b : UInt8} {rest : Bytes} {behind : Nat} (h : piece b rest = .whole behind) :
    ∀ c ∈ rest.take behind, 0x80 ≤ c := by
  unfold piece at h
  split at h
  · cases h
    simp
  split at h
  · cases h
  next count low high hfollowing =>
  have hlow := low_of_following? hfollowing
  dsimp only at h
  split at h
  · next hfound =>
    cases h
    exact fun c hc => ascii_not_mem_take_present hlow high behind rest c (by rwa [hfound])
  · cases h

end Chronicle.Utf8
