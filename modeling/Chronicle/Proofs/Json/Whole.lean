import Chronicle.Json.Printer
import Chronicle.Json.Reader
import Mathlib.Tactic.Lemma

/-!
Documents that are read consist of whole characters.

A string is taken over only if it is valid UTF-8, and neither arrays nor objects add a string. So whatever
was read can be printed with nothing replaced in it.
-/

namespace Chronicle.Json

lemma haveWhole_iff {members : List (Bytes × Json)} :
    haveWhole members = true ↔ ∀ member ∈ members, Utf8.isValid member.1 = true ∧ member.2.isWhole = true := by
  induction members with
  | nil => simp [haveWhole]
  | cons member rest ih => simp [haveWhole, ih]

lemma isWhole_ofMembers {members : List (Bytes × Json)} (h : haveWhole members = true) :
    (ofMembers members).isWhole = true := by
  rw [ofMembers, isWhole, haveWhole_iff]
  exact fun member hmember => haveWhole_iff.mp h member (Table.mem_of_mem_ofList hmember)

lemma isWhole_of_find? {document value : Json} {key : Bytes} (h : document.isWhole = true)
    (hfind : document.find? key = some value) : value.isWhole = true := by
  cases document with
  | object members => exact (haveWhole_iff.mp h _ (Table.mem_of_findEntry hfind)).2
  | _ => cases hfind

namespace Reader

lemma isValid_of_string? {text value rest : Bytes} (h : string? text = some (value, rest)) :
    Utf8.isValid value = true := by
  obtain ⟨⟨read, behind⟩, -, hread⟩ := Option.bind_eq_some_iff.mp h
  dsimp only at hread
  split at hread
  · next hvalid =>
    cases hread
    exact hvalid
  · cases hread

lemma isWhole_of_decimalOf? {negative : Bool} {digits : Bytes} {exponent : Int} {value : Json}
    (h : decimalOf? negative digits exponent = some value) : value.isWhole = true := by
  rw [decimalOf?] at h
  split at h
  · cases h
  · cases h
    rfl

lemma isWhole_of_number? {text rest : Bytes} {value : Json} (h : number? text = some (value, rest)) :
    value.isWhole = true := by
  have hdecimal : ∀ {negative : Bool} {digits behind : Bytes} {exponent : Int},
      (decimalOf? negative digits exponent).bind (fun value => some (value, behind)) = some (value, rest) →
        value.isWhole = true := by
    intro negative digits behind exponent h
    obtain ⟨decimal, hdecimal, h⟩ := Option.bind_eq_some_iff.mp h
    cases h
    exact isWhole_of_decimalOf? hdecimal
  unfold number? at h
  split at h
  next negative digits _ =>
  obtain ⟨⟨whole, behindWhole⟩, -, h⟩ := Option.bind_eq_some_iff.mp h
  obtain ⟨⟨fraction, behindFraction⟩, -, h⟩ := Option.bind_eq_some_iff.mp h
  obtain ⟨⟨exponent, behind⟩, -, h⟩ := Option.bind_eq_some_iff.mp h
  dsimp only at h
  split at h
  · by_cases hzero : (negative && digitsValue whole = 0) = true
    · rw [if_pos hzero] at h
      cases h
      rfl
    · rw [if_neg hzero] at h
      by_cases hfits : if negative = true then 2 * digitsValue whole ≤ UInt64.size
          else digitsValue whole < UInt64.size
      · rw [if_pos hfits] at h
        cases h
        rfl
      · rw [if_neg hfits] at h
        exact hdecimal h
  · exact hdecimal h

/-! ### One step of reading -/

variable {steps : Nat} {text rest : Bytes}

lemma isWhole_of_value?
    (hitems : ∀ text items rest, items? steps text = some (items, rest) → areWhole items = true)
    (hmembers : ∀ text members rest, members? steps text = some (members, rest) → haveWhole members = true)
    {value : Json} (h : value? (steps + 1) text = some (value, rest)) : value.isWhole = true := by
  rw [value?] at h
  split at h
  · obtain ⟨⟨string, behind⟩, hstring, heq⟩ := Option.map_eq_some_iff.mp h
    cases heq
    exact isValid_of_string? hstring
  · split at h
    · cases h
      rfl
    · obtain ⟨⟨items, behind⟩, hread, heq⟩ := Option.map_eq_some_iff.mp h
      cases heq
      exact hitems _ _ _ hread
  · split at h
    · cases h
      rfl
    · obtain ⟨⟨members, behind⟩, hread, heq⟩ := Option.map_eq_some_iff.mp h
      cases heq
      exact isWhole_ofMembers (hmembers _ _ _ hread)
  · split at h
    · cases h
      rfl
    · cases h
      rfl
    · cases h
      rfl
    · exact isWhole_of_number? h

lemma areWhole_of_items?
    (hvalue : ∀ text value rest, value? steps text = some (value, rest) → value.isWhole = true)
    (hitems : ∀ text items rest, items? steps text = some (items, rest) → areWhole items = true)
    {items : List Json} (h : items? (steps + 1) text = some (items, rest)) : areWhole items = true := by
  rw [items?] at h
  obtain ⟨⟨item, behind⟩, hitem, h⟩ := Option.bind_eq_some_iff.mp h
  have hfirst := hvalue _ item behind hitem
  dsimp only at h
  split at h
  · obtain ⟨⟨more, last⟩, hmore, heq⟩ := Option.map_eq_some_iff.mp h
    cases heq
    rw [areWhole, hfirst, hitems _ more last hmore]
    rfl
  · cases h
    rw [areWhole, hfirst]
    rfl
  · cases h

lemma haveWhole_of_members?
    (hvalue : ∀ text value rest, value? steps text = some (value, rest) → value.isWhole = true)
    (hmembers : ∀ text members rest, members? steps text = some (members, rest) → haveWhole members = true)
    {members : List (Bytes × Json)} (h : members? (steps + 1) text = some (members, rest)) :
    haveWhole members = true := by
  rw [members?] at h
  split at h
  case h_2 => cases h
  obtain ⟨⟨key, behindKey⟩, hkey, h⟩ := Option.bind_eq_some_iff.mp h
  dsimp only at h
  split at h
  case h_2 => cases h
  obtain ⟨⟨value, behind⟩, hread, h⟩ := Option.bind_eq_some_iff.mp h
  have hfirst := hvalue _ value behind hread
  have hvalid := isValid_of_string? hkey
  dsimp only at h
  split at h
  · obtain ⟨⟨more, last⟩, hmore, heq⟩ := Option.map_eq_some_iff.mp h
    cases heq
    rw [haveWhole, hvalid, hfirst, hmembers _ more last hmore]
    rfl
  · cases h
    rw [haveWhole, hvalid, hfirst]
    rfl
  · cases h

/-- **Values, items and members that are read are whole**, however many steps are allowed for. -/
theorem whole_of_read (steps : Nat) :
    (∀ text value rest, value? steps text = some (value, rest) → value.isWhole = true) ∧
    (∀ text items rest, items? steps text = some (items, rest) → areWhole items = true) ∧
    (∀ text members rest, members? steps text = some (members, rest) → haveWhole members = true) := by
  induction steps with
  | zero =>
    refine ⟨fun text value rest h => ?_, fun text items rest h => ?_, fun text members rest h => ?_⟩
    · rw [value?] at h
      cases h
    · rw [items?] at h
      cases h
    · rw [members?] at h
      cases h
  | succ steps ih =>
    obtain ⟨hvalue, hitems, hmembers⟩ := ih
    exact ⟨fun _ _ _ => isWhole_of_value? hitems hmembers, fun _ _ _ => areWhole_of_items? hvalue hitems,
      fun _ _ _ => haveWhole_of_members? hvalue hmembers⟩

end Reader

/-- **A document that was read is whole.** -/
theorem isWhole_of_read? {text : Bytes} {document : Json} (h : read? text = some document) :
    document.isWhole = true := by
  unfold read? at h
  obtain ⟨⟨value, rest⟩, hvalue, h⟩ := Option.bind_eq_some_iff.mp h
  dsimp only at h
  split at h
  · cases h
    exact (Reader.whole_of_read _).1 _ _ _ hvalue
  · cases h

end Chronicle.Json
