import Chronicle.Proofs.Tail.ExactlyOnce

/-!
Following a log that is also cut.

A visit moves the offset from the start of a line to the start of a line, and what it delivers are whole
lines. It cannot set right an offset that others have moved into a line: a log that is cut to less than
has been read is taken up at its end, whatever stands there, and one that has grown again since looks as
if it had never been cut. So the offset stays at the start of a line as long as a log that is cut below
it ends with a line, and is not added to before its reader has come by.
-/

namespace Chronicle

namespace Disk

variable {disk : Disk} {here : Standing} {path : Path} {content : Bytes}

/-- **Cutting a file** leaves a file with its first bytes behind the path. -/
theorem Holds.truncate (h : disk.Holds here path content) {size : Nat} (hsize : size ≤ content.length) :
    ∃ disk', disk.truncate here path size = .ok disk' ∧ disk'.Holds here path (content.take size) := by
  obtain ⟨key, hkey⟩ := h
  have hnone : size - content.length = 0 := by omega
  refine ⟨disk.set key (.file (content.take size)), ?_, key, ?_⟩
  · simp only [Disk.truncate, hkey, hnone, List.replicate_zero, List.append_nil]
  · rw [(rewritten_set (resolve_isOn hkey) (content.take size)).resolve, hkey]
    simp [Except.map, mapPlace, mapEntry]

lemma Holds.content?_eq (h : disk.Holds here path content) :
    disk.content? here path = some content := by
  obtain ⟨key, hkey⟩ := h
  simp [content?, read, hkey]

end Disk

end Chronicle

namespace Chronicle.Tail

open Chronicle.Bytes

/-! ### Where lines start -/

/-- A line starts here: at the start of the text, or just behind a line break. -/
def LineStart (text : Bytes) (place : Nat) : Prop :=
  place = 0 ∨ text[place - 1]? = some newline

instance (text : Bytes) (place : Nat) : Decidable (LineStart text place) :=
  inferInstanceAs (Decidable (_ ∨ _))

/-- A line of a text, from its first byte up to the line break that ends it. -/
def WholeLine (text line : Bytes) : Prop :=
  newline ∉ line ∧ ∃ place, LineStart text place ∧ line ++ [newline] <+: text.drop place

variable {text content line : Bytes} {place offset size : Nat}

lemma lineStart_congr {text' : Bytes} (h : text'.take place = text.take place) :
    LineStart text' place ↔ LineStart text place := by
  rcases place with _ | place
  · simp [LineStart]
  · have hlast : text'[place]? = text[place]? := by
      have hget := congrArg (·[place]?) h
      simpa [List.getElem?_take] using hget
    simp [LineStart, hlast]

lemma lineStart_append (data : Bytes) (hplace : place ≤ text.length) :
    LineStart (text ++ data) place ↔ LineStart text place :=
  lineStart_congr (List.take_append_of_le_length hplace)

lemma lineStart_take (hplace : place ≤ size) :
    LineStart (text.take size) place ↔ LineStart text place :=
  lineStart_congr (by rw [List.take_take, Nat.min_eq_left hplace])

lemma LineStart.getLast?_take (h : LineStart text place) :
    (text.take place).getLast? = none ∨ (text.take place).getLast? = some newline := by
  rcases h with rfl | hbreak
  · exact Or.inl (by simp)
  rcases place with _ | place
  · exact Or.inl (by simp)
  · have hplace : place < text.length := (List.getElem?_eq_some_iff.mp hbreak).1
    right
    rw [List.getLast?_eq_getElem?, List.length_take, Nat.min_eq_left hplace, List.getElem?_take]
    simpa using hbreak

lemma LineStart.exists_terminated (h : LineStart text place) :
    ∃ lines, (∀ line ∈ lines, newline ∉ line) ∧ text.take place = terminated lines := by
  obtain ⟨lines, rest, htext, hlines, hrest⟩ := exists_lined (text.take place)
  refine ⟨lines, hlines, ?_⟩
  rcases List.eq_nil_or_concat rest with rfl | ⟨front, last, rfl⟩
  · rw [htext, List.append_nil]
  · have hlast : (text.take place).getLast? = some last := by
      rw [htext, List.concat_eq_append, ← List.append_assoc, List.getLast?_concat]
    rcases h.getLast?_take with hnone | hbreak
    · rw [hlast] at hnone
      cases hnone
    · rw [hlast, Option.some.injEq] at hbreak
      exact absurd (by simp [hbreak]) hrest

lemma Lined.wholeLine {lines : List Bytes} {rest : Bytes} (h : Lined text lines rest)
    (hline : line ∈ lines) : WholeLine text line := by
  obtain ⟨front, back, rfl⟩ := List.append_of_mem hline
  have hfront : Lined (terminated front) front [] :=
    ⟨(List.append_nil _).symm, fun line hline => h.lines_whole line (List.mem_append_left _ hline),
      by simp⟩
  have htext : text = terminated front ++ (line ++ [newline] ++ (terminated back ++ rest)) := by
    rw [h.text_eq, terminated_append]
    simp [terminated]
  refine ⟨h.lines_whole line hline, (terminated front).length, ?_, ?_⟩
  · rw [htext, lineStart_append _ (Nat.le_refl _)]
    exact hfront.behindLastBreak.break_before
  · rw [htext, List.drop_left]
    exact List.prefix_append _ _

/-! ### One visit -/

/-- What the log held at a visit, and what the reader was given. -/
structure Visit where
  content : Bytes
  batch : Batch
  deriving DecidableEq, Repr

/-- A line starts at the offset for the next visit, and whole lines were delivered. -/
structure Visit.Clean (visit : Visit) : Prop where
  offset : LineStart visit.content visit.batch.newOffset
  lines : ∀ line ∈ visit.batch.lines, WholeLine visit.content line

/-- A line starts where the next visit takes a log up: at the offset, or at the end of a log that is
shorter. -/
def Aligned (content : Bytes) (offset : Nat) : Prop := LineStart content (min offset content.length)

instance (content : Bytes) (offset : Nat) : Decidable (Aligned content offset) :=
  inferInstanceAs (Decidable (LineStart _ _))

lemma ofContent_newOffset_le (content : Bytes) (offset : Nat) :
    (Batch.ofContent content offset).newOffset ≤ content.length := by
  unfold Batch.ofContent
  split
  · exact Nat.le_refl _
  · exact Nat.sub_le _ _

lemma ofContent_of_length_le (h : content.length ≤ offset) :
    Batch.ofContent content offset = ⟨[], offset, content.length, content.length⟩ :=
  if_pos h

/-- **A visit keeps to whole lines** if it starts with one. -/
theorem Aligned.clean (h : Aligned content offset) :
    Visit.Clean ⟨content, Batch.ofContent content offset⟩ := by
  rcases Nat.lt_or_ge offset content.length with hlong | hshort
  · rw [Aligned, Nat.min_eq_left (Nat.le_of_lt hlong)] at h
    obtain ⟨front, hfront, hbefore⟩ := h.exists_terminated
    obtain ⟨lines, rest, hlines⟩ := exists_lined (content.drop offset)
    have hcontent : content = terminated front ++ content.drop offset := by
      rw [← hbefore, List.take_append_drop]
    have hoffset : offset = (terminated front).length := by
      rw [← hbefore, List.length_take, Nat.min_eq_left (Nat.le_of_lt hlong)]
    have hlined := hlines.behind hfront
    have hbatch : Batch.ofContent (terminated front ++ content.drop offset) (terminated front).length =
        _ := ofContent_append hlines
    rw [← hcontent] at hlined hbatch
    rw [← hoffset] at hbatch
    rw [hbatch]
    refine ⟨hlined.behindLastBreak.break_before, fun line hline => hlined.wholeLine ?_⟩
    exact List.mem_append_right _ (List.mem_filter.mp hline).1
  · rw [Aligned, Nat.min_eq_right hshort] at h
    rw [ofContent_of_length_le hshort]
    exact ⟨h, by simp⟩

/-- What is known of a visit whatever others do: the offset stays in the log, a log that has become
shorter gives no lines and is taken up at its end, and a visit that starts with a line keeps to whole
lines. -/
structure Visit.Sober (visit : Visit) : Prop where
  inside : visit.batch.newOffset ≤ visit.content.length
  shorter : visit.content.length < visit.batch.startOffset →
    visit.batch.lines = [] ∧ visit.batch.newOffset = visit.content.length
  clean : Aligned visit.content visit.batch.startOffset → visit.Clean

lemma sober_ofContent (content : Bytes) (offset : Nat) :
    Visit.Sober ⟨content, Batch.ofContent content offset⟩ := by
  have hstart : (Batch.ofContent content offset).startOffset = offset := by
    unfold Batch.ofContent
    split <;> rfl
  refine ⟨ofContent_newOffset_le content offset, fun hshort => ?_, fun haligned => ?_⟩
  · rw [hstart] at hshort
    rw [ofContent_of_length_le (Nat.le_of_lt hshort)]
    exact ⟨rfl, rfl⟩
  · rw [hstart] at haligned
    exact haligned.clean

/-! ### Changes between two visits -/

lemma Aligned.append (h : Aligned content offset) (hoffset : offset ≤ content.length)
    (data : Bytes) : Aligned (content ++ data) offset := by
  rw [Aligned, Nat.min_eq_left hoffset] at h
  have hlength : offset ≤ (content ++ data).length := by
    rw [List.length_append]
    omega
  rw [Aligned, Nat.min_eq_left hlength, lineStart_append data hoffset]
  exact h

lemma Aligned.cut (h : Aligned content offset) (hsize : offset ≤ size ∨ Aligned content size) :
    Aligned (content.take size) offset := by
  unfold Aligned at h hsize ⊢
  rw [List.length_take, lineStart_take (by omega)]
  rcases Nat.le_total offset size with hbehind | hbefore
  · rwa [show min offset (min size content.length) = min offset content.length by omega]
  rcases hsize with hbehind | hline
  · rwa [show min offset (min size content.length) = min offset content.length by omega]
  · rwa [show min offset (min size content.length) = min size content.length by omega]

lemma Aligned.read (h : Aligned content offset) :
    Aligned content (Batch.ofContent content offset).newOffset := by
  rw [Aligned, Nat.min_eq_left (ofContent_newOffset_le content offset)]
  exact h.clean.offset

/-! ### Many visits to a log that is also cut -/

/-- What happens to a log: others add to it or cut it, or its reader comes by. -/
inductive Turn
  | append (data : Bytes)
  | cut (size : Nat)
  | read
  deriving DecidableEq, Repr

/-- Others leave the log in order for its reader: they cut it below the offset only where a line ends,
and add nothing then before the reader has come by. -/
def Orderly : Bytes → Nat → List Turn → Prop
  | _, _, [] => True
  | content, offset, .append data :: rest =>
    offset ≤ content.length ∧ Orderly (content ++ data) offset rest
  | content, offset, .cut size :: rest =>
    (offset ≤ size ∨ Aligned content size) ∧ Orderly (content.take size) offset rest
  | content, offset, .read :: rest => Orderly content (Batch.ofContent content offset).newOffset rest

instance decidableOrderly : (content : Bytes) → (offset : Nat) → (turns : List Turn) →
    Decidable (Orderly content offset turns)
  | _, _, [] => inferInstanceAs (Decidable True)
  | content, offset, .append data :: rest =>
    have := decidableOrderly (content ++ data) offset rest
    inferInstanceAs (Decidable (_ ∧ _))
  | content, offset, .cut size :: rest =>
    have := decidableOrderly (content.take size) offset rest
    inferInstanceAs (Decidable (_ ∧ _))
  | content, offset, .read :: rest => decidableOrderly content (Batch.ofContent content offset).newOffset rest

/-- A host with the log, the offset for the next visit, and the visits so far. -/
structure Follower where
  host : Host
  offset : Nat := 0
  visits : List Visit := []

namespace Follower

def append (path : Path) (data : Bytes) (follower : Follower) : Follower :=
  { follower with
    host := { follower.host with
      disk := follower.host.disk.extend follower.host.here path data } }

/-- Cuts the log to a size; one that is not longer stays as it is. -/
def cut (path : Path) (size : Nat) (follower : Follower) : Follower :=
  let length := ((follower.host.disk.content? follower.host.here path).getD []).length
  match follower.host.disk.truncate follower.host.here path (min size length) with
  | .ok disk => { follower with host := { follower.host with disk } }
  | .error _ => follower

/-- A visit; the offset it gives is for the next one. -/
def read (path : Path) (follower : Follower) : Except Failure Follower :=
  match (readNewLines path follower.offset).runOn follower.host with
  | (.ok batch, host) =>
    let content := (follower.host.disk.content? follower.host.here path).getD []
    .ok ⟨host, batch.newOffset, follower.visits ++ [⟨content, batch⟩]⟩
  | (.error failure, _) => .error failure

def step (path : Path) (follower : Follower) : Turn → Except Failure Follower
  | .append data => .ok (follower.append path data)
  | .cut size => .ok (follower.cut path size)
  | .read => follower.read path

def run (path : Path) (turns : List Turn) (follower : Follower) : Except Failure Follower :=
  turns.foldlM (step path) follower

/-! #### One turn -/

variable {path : Path} {follower : Follower}

lemma shows_append (h : follower.host.ShowsFile path content) (data : Bytes) :
    (follower.append path data).host.ShowsFile path (content ++ data) :=
  ⟨h.opening, h.holds.extend data⟩

lemma shows_cut (h : follower.host.ShowsFile path content) (size : Nat) :
    ∃ host : Host, host.ShowsFile path (content.take size) ∧
      follower.cut path size = { follower with host } := by
  have hfound : (follower.host.disk.content? follower.host.here path).getD [] = content := by
    rw [h.holds.content?_eq, Option.getD_some]
  obtain ⟨disk, hcut, hholds⟩ := h.holds.truncate (Nat.min_le_right size content.length)
  rw [← List.take_eq_take_min] at hholds
  refine ⟨{ follower.host with disk }, ⟨h.opening, hholds⟩, ?_⟩
  simp only [cut, hfound, hcut]

lemma read_eq (h : follower.host.ShowsFile path content) :
    follower.read path = .ok ⟨follower.host, (Batch.ofContent content follower.offset).newOffset,
      follower.visits ++ [⟨content, .ofContent content follower.offset⟩]⟩ := by
  rw [read, runOn_readNewLines h]
  simp only [h.holds.content?_eq, Option.getD_some]

/-! #### All turns -/

/-- What a run has added to the visits. -/
structure Ran (follower after : Follower) (content : Bytes) (turns : List Turn) (added : List Visit) :
    Prop where
  visits : after.visits = follower.visits ++ added
  sober : ∀ visit ∈ added, visit.Sober
  clean : Aligned content follower.offset → Orderly content follower.offset turns →
    ∀ visit ∈ added, visit.Clean

lemma exists_run (follower : Follower) (h : follower.host.ShowsFile path content) (turns : List Turn) :
    ∃ after added, run path turns follower = .ok after ∧ Ran follower after content turns added := by
  induction turns generalizing follower content with
  | nil => exact ⟨follower, [], rfl, (List.append_nil _).symm, by simp, by simp⟩
  | cons turn rest ih =>
    cases turn with
    | append data =>
      obtain ⟨after, added, hrun, hran⟩ := ih _ (shows_append h data)
      refine ⟨after, added, hrun, hran.visits, hran.sober, fun haligned ⟨hoffset, hrest⟩ => ?_⟩
      exact hran.clean (haligned.append hoffset data) hrest
    | cut size =>
      obtain ⟨host, hshows, hcut⟩ := shows_cut h size
      obtain ⟨after, added, hrun, hran⟩ := ih { follower with host } hshows
      refine ⟨after, added, ?_, hran.visits, hran.sober, fun haligned ⟨hsize, hrest⟩ => ?_⟩
      · rw [run, List.foldlM_cons, step, hcut]
        exact hrun
      · exact hran.clean (haligned.cut hsize) hrest
    | read =>
      have hread := read_eq h
      obtain ⟨after, added, hrun, hran⟩ := ih
        ⟨follower.host, (Batch.ofContent content follower.offset).newOffset,
          follower.visits ++ [⟨content, .ofContent content follower.offset⟩]⟩ h
      refine ⟨after, ⟨content, .ofContent content follower.offset⟩ :: added, ?_, ?_, ?_, ?_⟩
      · rw [run, List.foldlM_cons, step, hread]
        exact hrun
      · rw [hran.visits, List.append_assoc]
        rfl
      · exact List.forall_mem_cons.mpr ⟨sober_ofContent _ _, hran.sober⟩
      · intro haligned hrest
        exact List.forall_mem_cons.mpr ⟨haligned.clean, hran.clean haligned.read hrest⟩

end Follower

/-- **The offset stays at the start of a line** as long as others leave the log in order: where they cut
it below the offset, a line ends there, and nothing is added before the next visit. A log with any content
is added to, cut and visited in any order, the first visit at offset 0. No visit fails. Whatever others do,
the offset stays in the log, a log that has become shorter than the offset is taken up at its end, and a
visit that starts at the start of a line, or at the end of a shorter log where a line ends, keeps to whole
lines. If the log is left in order, each visit does: the next offset is 0 or behind a line break, and each
line that was delivered is a whole line of the log as it was then. -/
theorem offset_stays_at_line_start {path : Path} {host : Host} {content : Bytes}
    (shows : host.ShowsFile path content) (turns : List Turn) :
    ∃ follower, Follower.run path turns { host } = .ok follower ∧
      (∀ visit ∈ follower.visits, visit.Sober) ∧
      (Orderly content 0 turns → ∀ visit ∈ follower.visits,
        (visit.batch.newOffset = 0 ∨
          visit.content[visit.batch.newOffset - 1]? = some newline) ∧
        ∀ line ∈ visit.batch.lines, WholeLine visit.content line) := by
  obtain ⟨follower, added, hrun, hran⟩ := Follower.exists_run { host } shows turns
  have hvisits : follower.visits = added := hran.visits
  have hstart : Aligned content 0 := Or.inl (Nat.zero_min _)
  refine ⟨follower, hrun, ?_, fun horderly visit hvisit => ?_⟩
  · rw [hvisits]
    exact hran.sober
  · rw [hvisits] at hvisit
    have hclean := hran.clean hstart horderly visit hvisit
    exact ⟨hclean.offset, hclean.lines⟩

/-- A log that is cut behind its first line, emptied, and filled anew, each time before a visit. -/
theorem offset_stays_at_line_start_emptied :
    emptyLog.ShowsFile ⟨[108]⟩ [] ∧
    Orderly [] 0 [.append [97, 10, 98, 10, 99], .read, .cut 2, .read, .cut 0, .read, .append [100, 10],
      .read] ∧
    ∃ follower, Follower.run ⟨[108]⟩ [.append [97, 10, 98, 10, 99], .read, .cut 2, .read, .cut 0, .read,
        .append [100, 10], .read] { host := emptyLog } = .ok follower ∧
      ∀ visit ∈ follower.visits, visit.batch.newOffset = 0 ∨
        visit.content[visit.batch.newOffset - 1]? = some newline := by
  have hempty : emptyLog.ShowsFile ⟨[108]⟩ [] := ⟨rfl, [[108]], rfl⟩
  have horderly : Orderly [] 0 [.append [97, 10, 98, 10, 99], .read, .cut 2, .read, .cut 0, .read,
      .append [100, 10], .read] := by decide
  obtain ⟨follower, hrun, -, hclean⟩ := offset_stays_at_line_start hempty _
  exact ⟨hempty, horderly, follower, hrun, fun visit hvisit => (hclean horderly visit hvisit).1⟩

/-- A log that is cut inside of a line is taken up there: the offset is neither 0 nor behind a line break,
and when the line is finished, its second half is delivered as a line. -/
theorem cut_inside_line_splits_it :
    ∃ follower, Follower.run ⟨[108]⟩ [.append [97, 98, 10], .read, .cut 1, .read, .append [99, 10], .read]
        { host := emptyLog } = .ok follower ∧
      ∃ second third, follower.visits[1]? = some second ∧ follower.visits[2]? = some third ∧
        second.content = [97] ∧ second.batch.newOffset = 1 ∧
        ¬ LineStart second.content second.batch.newOffset ∧
        third.content = [97, 99, 10] ∧ third.batch.lines = [[99]] ∧
        ¬ WholeLine third.content [99] := by
  refine ⟨_, rfl, _, _, rfl, rfl, rfl, rfl, by decide, rfl, rfl, ?_⟩
  rintro ⟨-, place, hstart, hprefix⟩
  have hplace : place < 2 := by
    have hlength := hprefix.length_le
    simp only [List.length_append, List.length_singleton, List.length_drop] at hlength
    change 2 ≤ 3 - place at hlength
    omega
  have hnone : ∀ place < 2, LineStart [97, 99, 10] place →
      ¬ [99] ++ [newline] <+: ([97, 99, 10] : Bytes).drop place := by decide
  exact hnone place hplace hstart hprefix

end Chronicle.Tail
