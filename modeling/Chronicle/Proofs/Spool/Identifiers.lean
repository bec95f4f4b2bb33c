import Chronicle.Artifact.Store
import Chronicle.Proofs.Disk.Names
import Chronicle.Spool.Store

/-!
Identifiers that are made for events.

An identifier is a day and the name of an agent with two underscores between. No day has an underscore, so the
first separator is this one, whatever underscores the name of the agent has, and what follows it is the name.
With the slashes out of the name, spool and artifacts take the identifier for the name of a file.
-/

namespace Chronicle

/-! ### A name behind a path -/

/-- The names of a directory and one more: the path of an entry directly in it. -/
def Path.IsChild (directory : Path) (name : Bytes) (path : Path) : Prop :=
  path.components = directory.components.filter (!·.isEmpty) ++ [name]

/-- The names of a path that are not empty. -/
def Path.names (path : Path) : List Bytes := (Bytes.splitOn Bytes.slash path.text).filter (!·.isEmpty)

lemma Path.filter_components (path : Path) :
    path.components.filter (!·.isEmpty) = (if path.isAbsolute then [[Bytes.slash]] else []) ++ path.names := by
  have hroot : (if path.isAbsolute then [[Bytes.slash]] else []).filter (!·.isEmpty) =
      if path.isAbsolute then [[Bytes.slash]] else [] := by
    split <;> rfl
  have hlast : ∀ c : Bool, (if c then [[]] else ([] : List Bytes)).filter (!·.isEmpty) = [] := by decide
  simp only [components, List.filter_append, hroot, hlast, names, List.filter_filter, Bool.and_self,
    List.append_nil]

lemma Path.components_of_last {path : Path} (h : path.text.getLast? ≠ some Bytes.slash) :
    path.components = (if path.isAbsolute then [[Bytes.slash]] else []) ++ path.names := by
  have hlast : (path.text.getLast? == some Bytes.slash) = false := beq_eq_false_iff_ne.mpr h
  simp [components, names, hlast]

/-- The names in front of a name that is put behind a path are those of the path. -/
lemma Path.names_front {name : Bytes} (hne : name ≠ []) (hslash : Bytes.slash ∉ name) (directory : Path) :
    isAbsolute ⟨directory.front ++ name⟩ = directory.isAbsolute ∧
      names ⟨directory.front ++ name⟩ = directory.names ++ [name] := by
  have hname : [name].filter (!·.isEmpty) = [name] := by simp [hne]
  unfold front
  split
  · next hempty =>
    have hnil : directory.text = [] := List.isEmpty_iff.mp hempty
    have hsingle : Bytes.splitOn Bytes.slash name = [name] := by
      rw [Bytes.splitOn_eq, List.splitOn_eq_singleton hslash]
    exact ⟨by simp [isAbsolute, hnil, head?_of_no_slash hslash], by simp [names, hnil, hsingle, hne, Bytes.splitOn]⟩
  next hempty =>
  have hhead : ∀ behind, isAbsolute ⟨directory.text ++ behind⟩ = directory.isAbsolute := by
    intro behind
    cases htext : directory.text with
    | nil => exact absurd (List.isEmpty_iff.mpr htext) hempty
    | cons b rest => simp [isAbsolute, htext]
  split
  · next hends =>
    obtain ⟨before, htext⟩ := List.getLast?_eq_some_iff.mp (beq_iff_eq.mp hends)
    have hdirectory : Bytes.splitOn Bytes.slash (before ++ [Bytes.slash]) = _ :=
      Bytes.splitOn_behind List.not_mem_nil before
    have hpath := Bytes.splitOn_behind hslash before
    exact ⟨hhead name, by simp [names, htext, hdirectory, hpath, hne]⟩
  · rw [List.append_assoc, List.singleton_append]
    refine ⟨hhead _, ?_⟩
    rw [names, names, Bytes.splitOn_behind hslash, List.filter_append, hname]

lemma Path.isChild_join {name : Bytes} (hne : name ≠ []) (hslash : Bytes.slash ∉ name) (directory : Path) :
    directory.IsChild name (directory.join name) := by
  have hlast : (directory.front ++ name).getLast? ≠ some Bytes.slash := by
    rw [List.getLast?_append, List.getLast?_eq_some_getLast hne, Option.some_or]
    exact fun heq => hslash (Option.some.inj heq ▸ List.getLast_mem hne)
  obtain ⟨habsolute, hnames⟩ := names_front hne hslash directory
  rw [IsChild, filter_components, join_front hslash, components_of_last hlast, habsolute, hnames,
    List.append_assoc]

namespace Spool

/-! ### Days -/

/-- Ten bytes of the form of a day: four digits, two and two, with dashes between. -/
inductive IsDay : Bytes → Prop
  | mk {y₁ y₂ y₃ y₄ m₁ m₂ d₁ d₂ : UInt8}
      (digits : ∀ b ∈ [y₁, y₂, y₃, y₄, m₁, m₂, d₁, d₂], Bytes.isDigit b = true) :
      IsDay [y₁, y₂, y₃, y₄, Bytes.dash, m₁, m₂, Bytes.dash, d₁, d₂]

lemma startsWithDay_append {day : Bytes} (h : IsDay day) (rest : Bytes) :
    startsWithDay (day ++ rest) = true := by
  obtain ⟨digits⟩ := h
  have hall := List.all_eq_true.mpr digits
  simp [startsWithDay, hall]

lemma startsWithDay_iff (text : Bytes) : startsWithDay text = true ↔ IsDay (text.take 10) := by
  constructor
  · intro h
    unfold startsWithDay at h
    split at h
    · simp only [Bool.and_eq_true, beq_iff_eq, List.all_eq_true] at h
      obtain ⟨⟨rfl, rfl⟩, digits⟩ := h
      exact .mk digits
    · cases h
  · intro h
    rw [← List.take_append_drop 10 text]
    exact startsWithDay_append h _

lemma IsDay.not_mem {day : Bytes} (h : IsDay day) {b : UInt8} (hdigit : Bytes.isDigit b = false)
    (hdash : b ≠ Bytes.dash) : b ∉ day := by
  obtain ⟨digits⟩ := h
  have hne : ∀ digit, Bytes.isDigit digit = true → b ≠ digit := by
    rintro _ hb rfl
    rw [hdigit] at hb
    cases hb
  simp only [List.mem_cons, List.not_mem_nil, or_false, forall_eq_or_imp, forall_eq] at digits
  simp [*]

/-! ### The separator -/

lemma find?_separator {front : Bytes} (hfront : (95 : UInt8) ∉ front) (agent : Bytes) :
    Bytes.find? separator (front ++ separator ++ agent) = some front.length := by
  induction front with
  | nil => rfl
  | cons b rest ih =>
    rw [List.mem_cons, not_or] at hfront
    have hb : separator.isPrefixOf (b :: rest ++ separator ++ agent) = false := by
      have hne : ((95 : UInt8) == b) = false := beq_eq_false_iff_ne.mpr hfront.1
      simp [show separator = [95, 95] from rfl, List.isPrefixOf, hne]
    rw [List.cons_append, List.cons_append, Bytes.find?, ← List.cons_append, ← List.cons_append, hb, ih hfront.2]
    rfl

/-! ### The agent -/

/-- A byte of the name of an agent as an identifier has it. -/
def sanitized (b : UInt8) : UInt8 := if b = Bytes.slash ∨ b = Bytes.backslash then 95 else b

lemma isSlash_sanitized (b : UInt8) : isSlash (sanitized b) = false := by
  by_cases h : b = Bytes.slash ∨ b = Bytes.backslash
  · rw [sanitized, if_pos h]
    rfl
  · rw [sanitized, if_neg h]
    rw [not_or] at h
    simp [isSlash, h]

/-- The name of an agent as an identifier has it: an agent without a name is not known. -/
lemma agentPart_eq (agent : Option Bytes) :
    agentPart agent =
      if agent.getD [] = [] then utf8 "unknown" else (agent.getD []).map sanitized := by
  have hbyte : (fun b => if isSlash b then 95 else b) = sanitized := by
    funext b
    simp [isSlash, sanitized]
  rw [agentPart, hbyte]
  cases agent with
  | none => rfl
  | some name => cases name with
    | nil => rfl
    | cons b rest => rfl

lemma agentPart_ne_nil (agent : Option Bytes) : agentPart agent ≠ [] := by
  rw [agentPart_eq]
  split
  · decide
  · next h => simpa using h

lemma agentPart_no_slash (agent : Option Bytes) : (agentPart agent).any isSlash = false := by
  rw [agentPart_eq]
  split
  · decide
  · simp [isSlash_sanitized]

/-! ### Identifiers -/

lemma dayOf_isDay {today : Bytes} (htoday : IsDay today) (ts : Bytes) : IsDay (dayOf ts today) := by
  unfold dayOf
  split
  · next h => exact (startsWithDay_iff ts).mp h
  · exact htoday

lemma dayOf_eq_take {ts today : Bytes} (h : IsDay (ts.take 10)) : dayOf ts today = ts.take 10 :=
  if_pos ((startsWithDay_iff ts).mpr h)

lemma dayOf_eq_today {ts today : Bytes} (h : ¬ IsDay (ts.take 10)) : dayOf ts today = today :=
  if_neg fun hday => h ((startsWithDay_iff ts).mp hday)

lemma IsDay.length {day : Bytes} (h : IsDay day) : day.length = 10 := by
  obtain ⟨-⟩ := h
  rfl

lemma IsDay.no_slash {day : Bytes} (h : IsDay day) : day.any isSlash = false := by
  rw [List.any_eq_false]
  intro b hb hslash
  simp only [isSlash, Bool.or_eq_true, beq_iff_eq] at hslash
  rcases hslash with rfl | rfl
  · exact h.not_mem (by decide) (by decide) hb
  · exact h.not_mem (by decide) (by decide) hb

lemma agentOf_append {day agent : Bytes} (hday : IsDay day) (hne : agent ≠ []) :
    agentOf (day ++ separator ++ agent) = utf8 "openclaw:" ++ agent := by
  have hdrop : (day ++ separator ++ agent).drop (day.length + separator.length) = agent := by
    rw [← List.length_append, List.drop_left]
  have hsome : agent.isEmpty = false := by simpa using hne
  simp only [agentOf, find?_separator (hday.not_mem (by decide) (by decide)), hdrop, hsome]
  rfl

lemma isSafe_append {day agent : Bytes} (hday : IsDay day) (hagent : agent.any isSlash = false) :
    isSafe (day ++ separator ++ agent) = true := by
  have hseparator : separator.any isSlash = false := rfl
  have hlong : 2 < (day ++ separator ++ agent).length := by
    simp only [List.length_append, hday.length, show separator.length = 2 from rfl]
    omega
  have hne : ∀ short : Bytes, short.length ≤ 2 → day ++ separator ++ agent ≠ short := by
    rintro short hshort rfl
    omega
  have hempty := hne [] (by decide)
  have hdot := hne [Bytes.dot] (by decide)
  have hdots := hne [Bytes.dot, Bytes.dot] (by decide)
  unfold isSafe
  rw [List.any_append, List.any_append, hday.no_slash, hseparator, hagent]
  simp only [Bool.or_false, Bool.not_false, Bool.and_true, Bool.and_eq_true, Bool.not_eq_true',
    List.isEmpty_eq_false_iff, bne_iff_ne]
  exact ⟨⟨hempty, hdot⟩, hdots⟩

lemma isUsable_of_isSafe {bundleId : Bytes} (h : isSafe bundleId = true) :
    Artifact.isUsable bundleId = true := by
  simp only [isSafe, isSlash, Bool.and_eq_true, Bool.not_eq_true', List.any_eq_false, Bool.or_eq_true,
    not_or] at h
  obtain ⟨⟨⟨hne, hslash⟩, hdot⟩, hdots⟩ := h
  simp only [Artifact.isUsable, Bool.and_eq_true, Bool.not_eq_true', List.any_eq_false]
  exact ⟨⟨⟨hne, fun b hb => (hslash b hb).1⟩, hdot⟩, hdots⟩

lemma no_slash_of_isSafe {bundleId : Bytes} (h : isSafe bundleId = true) : Bytes.slash ∉ bundleId := by
  simp only [isSafe, isSlash, Bool.and_eq_true, Bool.not_eq_true', List.any_eq_false, Bool.or_eq_true,
    not_or] at h
  exact fun hmem => (h.1.1.2 _ hmem).1 (beq_self_eq_true _)

lemma isChild_file? {store : Store} {bundleId : Bytes} (h : isSafe bundleId = true) :
    ∃ path, store.file? bundleId = .ok path ∧
      store.directory.IsChild (bundleId ++ utf8 ".jsonl") path := by
  refine ⟨_, if_pos h, Path.isChild_join (by simp [show utf8 ".jsonl" ≠ [] from by decide]) ?_ _⟩
  rw [List.mem_append, not_or]
  exact ⟨no_slash_of_isSafe h, by decide⟩

/-- **An identifier names a file and its agent can be read back.** Whatever the timestamp and the name of the
agent are, the identifier is a day, two underscores and a name without slashes. The day is the one that the
timestamp starts with, if there is one. The spool takes the identifier and has its file directly in its directory,
artifacts take it too, and its agent is the one that the event names, with underscores for slashes. -/
theorem bundleId_readable {today : Bytes} (htoday : IsDay today) (event : Event) :
    ∃ day agent : Bytes,
      bundleId today event = day ++ utf8 "__" ++ agent ∧
      IsDay day ∧ (day = event.ts.take 10 ↔ IsDay (event.ts.take 10)) ∧
      (¬ IsDay (event.ts.take 10) → day = today) ∧
      agent ≠ [] ∧ Bytes.slash ∉ agent ∧ Bytes.backslash ∉ agent ∧
      (∀ store : Store, ∃ path, store.file? (bundleId today event) = .ok path ∧
        store.directory.IsChild (bundleId today event ++ utf8 ".jsonl") path) ∧
      Artifact.checkId (bundleId today event) = .ok () ∧
      agentOf (bundleId today event) = utf8 "openclaw:" ++
        (match event.agentId with
          | none | some [] => utf8 "unknown"
          | some name => name.map fun b => if b = Bytes.slash ∨ b = Bytes.backslash then 95 else b) := by
  have hday := dayOf_isDay htoday event.ts
  have hne := agentPart_ne_nil event.agentId
  have hno := agentPart_no_slash event.agentId
  have hsafe : isSafe (bundleId today event) = true := isSafe_append hday hno
  have hslashes : Bytes.slash ∉ agentPart event.agentId ∧ Bytes.backslash ∉ agentPart event.agentId := by
    simp only [List.any_eq_false, isSlash, Bool.or_eq_true, not_or, beq_iff_eq] at hno
    exact ⟨fun hmem => (hno _ hmem).1 rfl, fun hmem => (hno _ hmem).2 rfl⟩
  refine ⟨dayOf event.ts today, agentPart event.agentId, rfl, hday, ⟨fun heq => heq ▸ hday, dayOf_eq_take⟩,
    dayOf_eq_today, hne, hslashes.1, hslashes.2, fun store => isChild_file? hsafe,
    if_pos (isUsable_of_isSafe hsafe), ?_⟩
  rw [bundleId, agentOf_append hday hne, agentPart_eq]
  rcases event.agentId with _ | _ | ⟨b, rest⟩
  · rfl
  · rfl
  · rfl

lemma isDay_example : IsDay (utf8 "2026-03-04") := (startsWithDay_iff (utf8 "2026-03-04")).mp (by decide)

/-- An event with a month of one digit, from an agent whose name starts like a separator. -/
theorem bundleId_readable_underscores :
    IsDay (utf8 "2026-03-04") ∧
      bundleId (utf8 "2026-03-04") { ts := utf8 "2026-3-04T10", kind := [], agentId := some (utf8 "__/..") } =
        utf8 "2026-03-04_____.." ∧
      agentOf (utf8 "2026-03-04_____..") = utf8 "openclaw:___.." := by
  have hid : bundleId (utf8 "2026-03-04")
      { ts := utf8 "2026-3-04T10", kind := [], agentId := some (utf8 "__/..") } =
        utf8 "2026-03-04_____.." := by decide
  obtain ⟨-, -, -, -, -, -, -, -, -, -, -, hagent⟩ := bundleId_readable isDay_example
    { ts := utf8 "2026-3-04T10", kind := [], agentId := some (utf8 "__/..") }
  rw [hid] at hagent
  exact ⟨isDay_example, hid, hagent⟩

end Spool

end Chronicle
