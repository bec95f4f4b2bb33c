import Chronicle.Json.Printer
import Chronicle.Json.Reader
import Chronicle.Proofs.Bytes.Decimal

/-!
Texts that are read back.

A string of whole characters is read back from what is printed for it, since each escape stands for one
character and all other bytes for themselves. A number is read back from its digits, if what follows does not
go on with it. So an object whose values are numbers is read back from its indented text, line by line.
-/

namespace Chronicle.Json

/-- Members whose values are natural numbers. -/
def numbered (entries : List (Bytes × Nat)) : List (Bytes × Json) := entries.map fun (key, n) => (key, .nat n)

namespace Reader

/-! ### Characters -/

lemma stringBody?_plain {b : UInt8} (hb : 32 ≤ b) (hquote : b ≠ 34) (hescape : b ≠ 92) (rest : Bytes) :
    stringBody? (b :: rest) = before [b] (stringBody? rest) := by
  have hlow : ¬ b < 32 := UInt8.not_lt.mpr hb
  rw [stringBody?.eq_def]
  split
  · next heq => cases heq
  · next heq => exact absurd (List.cons.inj heq).1 hquote
  · next heq => exact absurd (List.cons.inj heq).1 hescape
  · next heq => exact absurd (List.cons.inj heq).1 hescape
  · next heq => exact absurd (List.cons.inj heq).1 hescape
  · next heq =>
    cases heq
    simp [hlow, hescape]

lemma stringBody?_unit {a b c d : UInt8} {unit : Nat} (h : hexUnit? a b c d = some unit) (hunit : unit < 0xD800)
    (rest : Bytes) :
    stringBody? (92 :: 117 :: a :: b :: c :: d :: rest) = before (Utf8.encode unit) (stringBody? rest) := by
  have hhigh : isHighHalf unit = false := by simp [isHighHalf]; omega
  have hlow : isLowHalf unit = false := by simp [isLowHalf]; omega
  rw [stringBody?.eq_def]
  split
  · next heq => cases heq
  · next heq => cases heq
  · next heq =>
    -- Another escape may follow, but only a high half takes it for a part of itself.
    cases heq
    simp [h, hhigh, hlow]
  · next heq =>
    cases heq
    simp [h, hhigh, hlow]
  · next hnot heq =>
    cases heq
    exact absurd rfl (hnot a b c d rest rfl)
  · next hnot heq =>
    cases heq
    exact absurd rfl (hnot _ _ rfl)

lemma stringBody?_simple {b c : UInt8} (h : simpleEscape? b = some c) (rest : Bytes) :
    stringBody? (92 :: b :: rest) = before [c] (stringBody? rest) := by
  have hb : b ≠ 117 := by
    rintro rfl
    cases h
  rw [stringBody?.eq_def]
  split
  · next heq => cases heq
  · next heq => cases heq
  · next heq =>
    cases heq
    exact absurd rfl hb
  · next heq =>
    cases heq
    exact absurd rfl hb
  · next heq =>
    cases heq
    simp [h]
  · next hnot heq =>
    cases heq
    exact absurd rfl (hnot b rest rfl)

lemma hexUnit?_hex (b : UInt8) :
    hexUnit? 48 48 (Bytes.hexDigit (b.toNat / 16)) (Bytes.hexDigit (b.toNat % 16)) = some b.toNat := by
  have hhigh := Bytes.hexValue?_hexDigit (b.toNat / 16) (by have := b.toNat_lt; omega)
  have hlow := Bytes.hexValue?_hexDigit (b.toNat % 16) (by omega)
  have hzero : Bytes.hexValue? 48 = some 0 := rfl
  simp only [hexUnit?, hzero, hhigh, hlow, bind, Option.bind, pure, Option.some.injEq]
  omega

lemma encode_ascii {b : UInt8} (hb : b < 0x80) : Utf8.encode b.toNat = [b] := by
  have hlt : b.toNat < 0x80 := UInt8.lt_iff_toNat_lt.mp hb
  rw [Utf8.encode, if_pos hlt]
  exact congrArg (fun byte => [byte]) (UInt8.ofNat_toNat)

lemma stringBody?_escapedByte {b : UInt8} (hb : b < 0x80) (rest : Bytes) :
    stringBody? (escapedByte b ++ rest) = before [b] (stringBody? rest) := by
  unfold escapedByte
  iterate 7
    split
    · next heq =>
      subst heq
      exact stringBody?_simple rfl rest
  next hquote hescape _ _ _ _ _ =>
  split
  · next hcontrol =>
    have hunit : b.toNat < 0xD800 := Nat.lt_trans (UInt8.lt_iff_toNat_lt.mp hb) (by decide)
    have hread := stringBody?_unit (hexUnit?_hex b) hunit rest
    rwa [encode_ascii hb] at hread
  · next hvisible => exact stringBody?_plain (UInt8.not_lt.mp hvisible) hquote hescape rest

lemma before_before (front behind : Bytes) (read : Option (Bytes × Bytes)) :
    before front (before behind read) = before (front ++ behind) read := by
  cases read with
  | none => rfl
  | some read => simp [before]

lemma stringBody?_high {bytes : Bytes} (h : ∀ b ∈ bytes, 0x80 ≤ b) (rest : Bytes) :
    stringBody? (bytes ++ rest) = before bytes (stringBody? rest) := by
  induction bytes with
  | nil => cases hread : stringBody? rest <;> simp [before, hread]
  | cons b bytes ih =>
    obtain ⟨hb, hbytes⟩ := List.forall_mem_cons.mp h
    rw [List.cons_append, stringBody?_plain, ih hbytes, before_before]
    · rfl
    · exact UInt8.le_trans (by decide) hb
    · rintro rfl
      exact absurd hb (by decide)
    · rintro rfl
      exact absurd hb (by decide)

/-! ### Strings -/

/-- **What is written for a text of whole characters** is read back as that text, up to its closing quote. -/
theorem stringBody?_escapedFrom {skip : Nat} {text : Bytes} (h : Utf8.validFrom skip text = true) (rest : Bytes) :
    stringBody? (escapedFrom skip text ++ 34 :: rest) = some (text.drop skip, rest) := by
  induction text generalizing skip with
  | nil =>
    rw [escapedFrom, List.nil_append, List.drop_nil, stringBody?]
  | cons b text ih =>
    cases skip with
    | succ skip =>
      rw [escapedFrom, List.drop_succ_cons]
      exact ih h
    | zero =>
      rw [Utf8.validFrom] at h
      rw [escapedFrom, List.drop_zero]
      split
      · next hascii =>
        rw [Utf8.piece, if_pos hascii] at h
        rw [List.append_assoc, stringBody?_escapedByte hascii, ih h]
        rfl
      next hhigh =>
      rcases hpiece : Utf8.piece b text with behind | behind
      · rw [hpiece] at h
        have hbytes : ∀ c ∈ b :: text.take behind, 0x80 ≤ c :=
          List.forall_mem_cons.mpr ⟨UInt8.not_lt.mp hhigh, Utf8.high_of_piece hpiece⟩
        dsimp only
        rw [List.append_assoc, stringBody?_high hbytes, ih h, before, Option.map_some]
        dsimp only
        rw [List.cons_append, List.take_append_drop]
      · rw [hpiece] at h
        cases h

theorem string?_escapedFrom {text : Bytes} (h : Utf8.isValid text = true) (rest : Bytes) :
    string? (escapedFrom 0 text ++ 34 :: rest) = some (text, rest) := by
  rw [string?, stringBody?_escapedFrom h]
  simp [h]

/-! ### Numbers -/

/-- What follows a number does not go on with it. -/
def EndsNumber (rest : Bytes) : Prop :=
  ∀ b, rest.head? = some b → Bytes.isDigit b = false ∧ b ≠ 46 ∧ b ≠ 101 ∧ b ≠ 69

lemma digits?_decimal (n : Nat) {rest : Bytes} (hrest : EndsNumber rest) :
    digits? (Bytes.decimal n ++ rest) = some (Bytes.decimal n, rest) := by
  have hdigits := Bytes.isDigit_decimal n
  have htake : rest.takeWhile Bytes.isDigit = [] := by
    cases rest with
    | nil => rfl
    | cons b rest =>
      rw [List.takeWhile_cons, (hrest b rfl).1]
      rfl
  have hdrop : rest.dropWhile Bytes.isDigit = rest := by
    cases rest with
    | nil => rfl
    | cons b rest =>
      rw [List.dropWhile_cons, (hrest b rfl).1]
      rfl
  have hempty : (Bytes.decimal n).isEmpty = false := by simpa using Bytes.decimal_ne_nil n
  rw [digits?, List.takeWhile_append_of_pos hdigits, List.dropWhile_append_of_pos hdigits, htake, hdrop,
    List.append_nil, hempty]
  rfl

lemma wholeDigits?_decimal (n : Nat) {rest : Bytes} (hrest : EndsNumber rest) :
    wholeDigits? (Bytes.decimal n ++ rest) = some (Bytes.decimal n, rest) := by
  unfold wholeDigits?
  split
  · next behind heq =>
    rcases Nat.eq_zero_or_pos n with rfl | hpos
    · cases heq
      rfl
    · have hhead := Bytes.head_decimal hpos
      obtain ⟨d, digits, hdecimal⟩ := List.exists_cons_of_ne_nil (Bytes.decimal_ne_nil n)
      rw [hdecimal] at heq hhead
      cases heq
      exact absurd rfl hhead
  · exact digits?_decimal n hrest

lemma fraction?_of_ends {rest : Bytes} (h : EndsNumber rest) : fraction? rest = some ([], rest) := by
  unfold fraction?
  split
  · exact absurd rfl (h 46 rfl).2.1
  · rfl

lemma exponent?_of_ends {rest : Bytes} (h : EndsNumber rest) : exponent? rest = some (none, rest) := by
  cases rest with
  | nil => rfl
  | cons b rest =>
    obtain ⟨-, -, hlower, hupper⟩ := h b rfl
    simp [exponent?, hlower, hupper]

/-- **A number of 64 bits is read back**, if what follows does not go on with it. -/
theorem number?_decimal {n : Nat} (hn : n < UInt64.size) {rest : Bytes} (hrest : EndsNumber rest) :
    number? (Bytes.decimal n ++ rest) = some (.nat n, rest) := by
  have hminus : ∀ behind, Bytes.decimal n ++ rest ≠ 45 :: behind := by
    intro behind heq
    obtain ⟨d, digits, hdecimal⟩ := List.exists_cons_of_ne_nil (Bytes.decimal_ne_nil n)
    have hdigit := Bytes.isDigit_decimal n d (by simp [hdecimal])
    rw [hdecimal] at heq
    cases heq
    exact absurd hdigit (by decide)
  unfold number?
  split
  next negative text hsign =>
  split at hsign
  · next behind heq => exact absurd heq (hminus behind)
  · cases hsign
    have hvalue : digitsValue (Bytes.decimal n) = n := Bytes.number_decimal n
    simp [wholeDigits?_decimal n hrest, fraction?_of_ends hrest, exponent?_of_ends hrest, hvalue, hn, nat]

/-! ### Values and members -/

lemma skipBlanks_lineStart (depth : Nat) (text : Bytes) : skipBlanks (lineStart depth ++ text) = skipBlanks text := by
  have hblank : ∀ b ∈ lineStart depth, isBlank b = true := by
    intro b hb
    rcases List.mem_cons.mp hb with rfl | hb
    · rfl
    · rw [List.eq_of_mem_replicate hb]
      rfl
  exact List.dropWhile_append_of_pos hblank

lemma skipBlanks_cons {b : UInt8} (hb : isBlank b = false) (text : Bytes) : skipBlanks (b :: text) = b :: text := by
  rw [skipBlanks, List.dropWhile_cons, hb]
  rfl

lemma not_blank_of_isDigit {b : UInt8} (h : Bytes.isDigit b = true) :
    isBlank b = false ∧ b ≠ 34 ∧ b ≠ 91 ∧ b ≠ 123 ∧ b ≠ 116 ∧ b ≠ 102 ∧ b ≠ 110 := by
  have hne : ∀ c, Bytes.isDigit c = false → b ≠ c := by
    rintro c hc rfl
    rw [h] at hc
    cases hc
  refine ⟨?_, hne 34 rfl, hne 91 rfl, hne 123 rfl, hne 116 rfl, hne 102 rfl, hne 110 rfl⟩
  simp [isBlank, hne 32 rfl, hne 9 rfl, hne 10 rfl, hne 13 rfl]

lemma value?_decimal (steps : Nat) {n : Nat} (hn : n < UInt64.size) {rest : Bytes} (hrest : EndsNumber rest) :
    value? (steps + 1) (32 :: (Bytes.decimal n ++ rest)) = some (.nat n, rest) := by
  obtain ⟨d, digits, hdecimal⟩ := List.exists_cons_of_ne_nil (Bytes.decimal_ne_nil n)
  obtain ⟨hblank, hquote, hbracket, hbrace, ht, hf, hn'⟩ :=
    not_blank_of_isDigit (Bytes.isDigit_decimal n d (by simp [hdecimal]))
  have hskip : skipBlanks (32 :: (Bytes.decimal n ++ rest)) = Bytes.decimal n ++ rest := by
    rw [hdecimal]
    exact skipBlanks_cons hblank _
  have hword : ∀ {first : UInt8} {word : Bytes}, first ≠ d →
      takeExact? (first :: word) (Bytes.decimal n ++ rest) = none := by
    intro first word hne
    rw [hdecimal, List.cons_append, takeExact?, if_neg hne]
  rw [value?, hskip]
  split
  · next heq =>
    rw [hdecimal] at heq
    exact absurd (List.cons.inj heq).1 hquote
  · next heq =>
    rw [hdecimal] at heq
    exact absurd (List.cons.inj heq).1 hbracket
  · next heq =>
    rw [hdecimal] at heq
    exact absurd (List.cons.inj heq).1 hbrace
  · rw [show utf8 "true" = 116 :: utf8 "rue" from rfl, show utf8 "false" = 102 :: utf8 "alse" from rfl,
      show utf8 "null" = 110 :: utf8 "ull" from rfl, hword ht.symm, hword hf.symm, hword hn'.symm]
    exact number?_decimal hn hrest

lemma indentedMembers_numbered (depth : Nat) (key : Bytes) (n : Nat) (more : List (Bytes × Nat)) (rest : Bytes) :
    indentedMembers depth (numbered ((key, n) :: more)) ++ rest =
      lineStart depth ++ 34 :: (escapedFrom 0 key ++ 34 :: 58 :: 32 :: (Bytes.decimal n ++
        if more = [] then rest else 44 :: (indentedMembers depth (numbered more) ++ rest))) := by
  have hquote : utf8 "\"" = [34] := rfl
  have hcolon : utf8 ": " = [58, 32] := rfl
  have hcomma : utf8 "," = [44] := rfl
  cases more with
  | nil =>
    simp [numbered, indentedMembers, indentedAt, nat, Bytes.signedDecimal, quoted, hquote, hcolon]
  | cons next more =>
    simp [numbered, indentedMembers, indentedAt, nat, Bytes.signedDecimal, quoted, hquote, hcolon, hcomma]

lemma members?_next {key : Bytes} (hkey : Utf8.isValid key = true) {n : Nat} (hn : n < UInt64.size)
    (steps depth : Nat) (behind : Bytes) :
    members? (steps + 2) (lineStart depth ++ 34 :: (escapedFrom 0 key ++ 34 :: 58 :: 32 ::
        (Bytes.decimal n ++ 44 :: behind))) =
      (members? (steps + 1) behind).map fun (members, rest) => ((key, .nat n) :: members, rest) := by
  have hend : EndsNumber (44 :: behind) := by
    rintro b ⟨⟩
    decide
  rw [members?, skipBlanks_lineStart, skipBlanks_cons rfl]
  simp only [string?_escapedFrom hkey, Option.bind_eq_bind, Option.bind_some, skipBlanks_cons (b := 58) rfl,
    value?_decimal steps hn hend, skipBlanks_cons (b := 44) rfl]

lemma members?_last {key : Bytes} (hkey : Utf8.isValid key = true) {n : Nat} (hn : n < UInt64.size)
    (steps depth : Nat) (rest : Bytes) :
    members? (steps + 2) (lineStart depth ++ 34 :: (escapedFrom 0 key ++ 34 :: 58 :: 32 ::
        (Bytes.decimal n ++ (lineStart 0 ++ 125 :: rest)))) = some ([(key, .nat n)], rest) := by
  have hend : EndsNumber (lineStart 0 ++ 125 :: rest) := by
    rintro b ⟨⟩
    decide
  rw [members?, skipBlanks_lineStart, skipBlanks_cons rfl]
  simp only [string?_escapedFrom hkey, Option.bind_eq_bind, Option.bind_some, skipBlanks_cons (b := 58) rfl,
    value?_decimal steps hn hend, skipBlanks_lineStart, skipBlanks_cons (b := 125) rfl]

/-- **Members with numbers are read back**, one line after the other. -/
theorem members?_indented {entries : List (Bytes × Nat)} (hne : entries ≠ [])
    (hwhole : ∀ entry ∈ entries, Utf8.isValid entry.1 = true) (hsmall : ∀ entry ∈ entries, entry.2 < UInt64.size)
    {steps : Nat} (hsteps : entries.length ≤ steps) (depth : Nat) (rest : Bytes) :
    members? (steps + 1) (indentedMembers depth (numbered entries) ++ (lineStart 0 ++ 125 :: rest)) =
      some (numbered entries, rest) := by
  induction entries generalizing steps with
  | nil => exact absurd rfl hne
  | cons entry more ih =>
    obtain ⟨key, n⟩ := entry
    obtain ⟨hkey, hkeys⟩ := List.forall_mem_cons.mp hwhole
    obtain ⟨hn, hns⟩ := List.forall_mem_cons.mp hsmall
    obtain ⟨steps, rfl⟩ : ∃ before, steps = before + 1 := Nat.exists_eq_add_one.mpr (by simp at hsteps; omega)
    rw [indentedMembers_numbered]
    -- A comma stands behind each member but the last.
    by_cases hmore : more = []
    · subst hmore
      rw [if_pos rfl, members?_last hkey hn]
      rfl
    · rw [if_neg hmore, members?_next hkey hn, ih hmore hkeys hns (by simpa using hsteps)]
      rfl

lemma indented_numbered (entry : Bytes × Nat) (more : List (Bytes × Nat)) (rest : Bytes) :
    (object (numbered (entry :: more))).indented ++ rest =
      123 :: (indentedMembers 1 (numbered (entry :: more)) ++ (lineStart 0 ++ 125 :: rest)) := by
  have hopen : utf8 "\x7b" = [123] := rfl
  have hclose : utf8 "\x7d" = [125] := rfl
  simp [indented, indentedAt, numbered, hopen, hclose]

lemma length_le_indentedMembers (depth : Nat) (entries : List (Bytes × Nat)) :
    entries.length ≤ (indentedMembers depth (numbered entries)).length := by
  induction entries with
  | nil => exact Nat.zero_le _
  | cons entry more ih =>
    obtain ⟨key, n⟩ := entry
    have htext := congrArg List.length (indentedMembers_numbered depth key n more [])
    split at htext
    · next hmore =>
      subst hmore
      simp at htext ⊢
      omega
    · simp only [List.append_nil, List.length_append, List.length_cons] at htext ⊢
      omega

/-- **An object of numbers is read back**, whatever follows it. -/
theorem value?_indented {table : Table Nat} (ascending : table.Ascending)
    (hwhole : ∀ entry ∈ table.entries, Utf8.isValid entry.1 = true)
    (hsmall : ∀ entry ∈ table.entries, entry.2 < UInt64.size) {steps : Nat}
    (hsteps : table.entries.length ≤ steps) (rest : Bytes) :
    value? (steps + 2) ((object (numbered table.entries)).indented ++ rest) =
      some (object (numbered table.entries), rest) := by
  obtain ⟨entries⟩ := table
  have hmembers : ofMembers (numbered entries) = object (numbered entries) := by
    have hsorted : (⟨numbered entries⟩ : Table Json).Ascending := List.pairwise_map.mpr ascending
    rw [ofMembers, Table.ofList_entries hsorted]
  cases entries with
  | nil => rfl
  | cons entry more =>
    obtain ⟨key, n⟩ := entry
    have hread := members?_indented (List.cons_ne_nil (key, n) more) hwhole hsmall hsteps 1 rest
    have hquote : ∃ behind, skipBlanks (indentedMembers 1 (numbered ((key, n) :: more)) ++
        (lineStart 0 ++ 125 :: rest)) = 34 :: behind := by
      rw [indentedMembers_numbered, skipBlanks_lineStart, skipBlanks_cons rfl]
      exact ⟨_, rfl⟩
    obtain ⟨behind, hquote⟩ := hquote
    rw [indented_numbered, value?, skipBlanks_cons rfl]
    simp only [hquote, hread, Option.map_some, hmembers]
    rfl

end Reader

open Reader

/-- **The text of an object of numbers is read back**, if its keys consist of whole characters and ascend. -/
theorem read?_indented {table : Table Nat} (ascending : table.Ascending)
    (hwhole : ∀ entry ∈ table.entries, Utf8.isValid entry.1 = true)
    (hsmall : ∀ entry ∈ table.entries, entry.2 < UInt64.size) :
    read? ((object (numbered table.entries)).indented ++ [Bytes.newline]) =
      some (object (numbered table.entries)) := by
  have hbrace : ∃ behind, (object (numbered table.entries)).indented ++ [Bytes.newline] = 123 :: behind ∧
      table.entries.length ≤ behind.length := by
    obtain ⟨entries⟩ := table
    cases entries with
    | nil => exact ⟨_, rfl, Nat.zero_le _⟩
    | cons entry more =>
      have hlength := length_le_indentedMembers 1 (entry :: more)
      exact ⟨_, indented_numbered entry more _, Nat.le_trans hlength (by simp)⟩
  obtain ⟨behind, htext, hlength⟩ := hbrace
  have hread := value?_indented ascending hwhole hsmall hlength [Bytes.newline]
  rw [htext] at hread ⊢
  unfold read?
  -- The text begins with a brace, so there is no byte order mark in front.
  split
  · next heq => cases heq
  · dsimp only [List.length_cons]
    rw [hread]
    rfl

end Chronicle.Json
