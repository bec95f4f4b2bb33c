import Chronicle.Proofs.Disk.Contents
import Chronicle.Proofs.Tail.Lines
import Chronicle.System.Host

/-!
Following a log that grows.

Others add to the log, in pieces of any kind; a reader comes by at any time, reads what is new and
keeps the offset it was given for its next visit. What the reader has been given over all its visits is
what a single look at the whole log would have given: each finished line once, in order.

The reader's offset stands behind whole lines only, those that have been delivered. Adding to the log
does not touch them, and a visit moves the offset over the lines finished since.
-/

namespace Chronicle

/-- The host lets a path be read, and finds a file with this content there. -/
structure Host.ShowsFile (host : Host) (path : Path) (content : Bytes) : Prop where
  opening : host.limits.opening = true
  holds : host.disk.Holds host.here path content

end Chronicle

namespace Chronicle.Tail

open Chronicle.Bytes

/-! ### One reading -/

lemma runOn_readNewLines {host : Host} {path : Path} {content : Bytes}
    (h : host.ShowsFile path content) (offset : Nat) :
    (readNewLines path offset).runOn host = (.ok (.ofContent content offset), host) := by
  obtain ⟨hopen, key, hkey⟩ := h
  have hstatus : host.disk.status host.here path = .ok ⟨.regular, content.length⟩ := by
    simp only [Disk.status, hkey, Disk.statusOf]
  have hread : host.disk.read host.here host.limits path = .content content := by
    simp [Disk.read, hopen, hkey]
  by_cases hsize : content.length ≤ offset
  · simp [readNewLines, Storage.fileSize, Program.runOn, Program.request, Program.run,
      Host.answer, Program.pure_eq, hstatus, hsize, Batch.ofContent]
  · have hblock : (content.drop offset).take (content.length - offset) = content.drop offset :=
      List.take_of_length_le (Nat.le_of_eq List.length_drop)
    simp only [readNewLines, Storage.fileSize, Program.runOn, Program.request, Program.ask_bind,
      Program.done_bind, Program.pure_eq, Program.run, Host.answer, hstatus, hsize, if_false, hread,
      hblock, List.length_drop, ne_eq, not_true_eq_false, Batch.ofContent]

/-- From behind finished lines, a look at a log gives the lines finished since. -/
lemma ofContent_append {front text : Bytes} {lines : List Bytes} {rest : Bytes}
    (h : Lined text lines rest) :
    Batch.ofContent (front ++ text) front.length =
      ⟨lines.filter (!·.isEmpty), front.length, (front ++ text).length - rest.length,
        (front ++ text).length⟩ := by
  unfold Batch.ofContent
  split
  · next hle =>
    have htext : text = [] := by
      rw [List.length_append] at hle
      exact List.length_eq_zero_iff.mp (by omega)
    subst htext
    have hnone : Lined [] [] [] := ⟨rfl, by simp, by simp⟩
    obtain ⟨rfl, rfl⟩ := h.unique hnone
    simp
  · rw [List.drop_left, Batch.ofBlock, h.splitBlock_eq]

/-! ### Many readings of a log that grows -/

/-- What happens to a log: others add to it, or its reader comes by. -/
inductive Happening
  | append (data : Bytes)
  | read
  deriving DecidableEq, Repr

/-- All that others have added. -/
def appended (happenings : List Happening) : Bytes :=
  happenings.flatMap fun
    | .append data => data
    | .read => []

/-- A host with the log, the offset for the next visit, and the lines delivered so far. -/
structure Session where
  host : Host
  offset : Nat := 0
  lines : List Bytes := []

namespace Session

def append (path : Path) (data : Bytes) (session : Session) : Session :=
  { session with
    host := { session.host with disk := session.host.disk.extend session.host.here path data } }

/-- A visit; the offset it gives is for the next one. -/
def read (path : Path) (session : Session) : Except Failure Session :=
  match (readNewLines path session.offset).runOn session.host with
  | (.ok batch, host) => .ok ⟨host, batch.newOffset, session.lines ++ batch.lines⟩
  | (.error failure, _) => .error failure

def step (path : Path) (session : Session) : Happening → Except Failure Session
  | .append data => .ok (session.append path data)
  | .read => session.read path

def run (path : Path) (happenings : List Happening) (session : Session) :
    Except Failure Session :=
  happenings.foldlM (step path) session

/-- The log consists of delivered lines and of text that has not been delivered; the offset stands
between them. -/
structure Stands (path : Path) (session : Session) (lines : List Bytes) (text : Bytes) : Prop where
  shows : session.host.ShowsFile path (terminated lines ++ text)
  lines_whole : ∀ line ∈ lines, newline ∉ line
  offset_eq : session.offset = (terminated lines).length
  lines_eq : session.lines = lines.filter (!·.isEmpty)

variable {path : Path} {session : Session} {lines : List Bytes} {text : Bytes}

lemma Stands.append (h : Stands path session lines text) (data : Bytes) :
    Stands path (session.append path data) lines (text ++ data) where
  shows := by
    refine ⟨h.shows.opening, ?_⟩
    have hholds := h.shows.holds.extend data
    rwa [List.append_assoc] at hholds
  lines_whole := h.lines_whole
  offset_eq := h.offset_eq
  lines_eq := h.lines_eq

lemma Stands.read (h : Stands path session lines text) {more : List Bytes} {rest : Bytes}
    (hmore : Lined text more rest) :
    ∃ session', session.read path = .ok session' ∧ Stands path session' (lines ++ more) rest := by
  have hlined := hmore.behind h.lines_whole
  refine ⟨⟨session.host, (terminated lines ++ text).length - rest.length,
    session.lines ++ more.filter (!·.isEmpty)⟩, ?_, ?_⟩
  · rw [Session.read, runOn_readNewLines h.shows, h.offset_eq, ofContent_append hmore]
  constructor
  · rw [← hlined.text_eq]
    exact h.shows
  · exact hlined.lines_whole
  · rw [hlined.text_eq, List.length_append, Nat.add_sub_cancel]
  · rw [h.lines_eq, List.filter_append]

lemma run_read {happenings : List Happening} {session' : Session}
    (h : Session.run path happenings session = .ok session') :
    Session.run path (happenings ++ [.read]) session = session'.read path := by
  rw [Session.run] at h
  rw [Session.run, List.foldlM_append, h]
  change (session'.read path >>= pure) = _
  rw [bind_pure]

/-- Whatever happens, the offset stays between what has been delivered and what has not. -/
lemma Stands.run (h : Stands path session lines text) (happenings : List Happening) :
    ∃ session' lines' text', Session.run path happenings session = .ok session' ∧
      Stands path session' lines' text' ∧
      terminated lines' ++ text' =
        terminated lines ++ text ++ appended happenings := by
  induction happenings generalizing session lines text with
  | nil => exact ⟨session, lines, text, rfl, h, by simp [appended]⟩
  | cons happening rest ih =>
    cases happening with
    | append data =>
      obtain ⟨session', lines', text', hrun, hstands, htext⟩ := ih (h.append data)
      refine ⟨session', lines', text', hrun, hstands, ?_⟩
      rw [htext]
      simp [appended]
    | read =>
      obtain ⟨more, unfinished, hmore⟩ := exists_lined text
      obtain ⟨next, hread, hnext⟩ := h.read hmore
      obtain ⟨session', lines', text', hrun, hstands, htext⟩ := ih hnext
      refine ⟨session', lines', text', ?_, hstands, ?_⟩
      · rw [Session.run, List.foldlM_cons, step, hread]
        exact hrun
      · rw [htext, ← (hmore.behind h.lines_whole).text_eq]
        simp [appended]

end Session

/-- **Each line once.** A log starts empty; others add to it, and a reader that starts at offset 0
visits it, any number of times in any order, the last visit at the end. No visit fails, and what the
reader has been given then are the lines of the whole log that are finished and not empty, in order.
Its offset is the place behind the last line break. -/
theorem run_delivers_each_line_once {path : Path} {host : Host} (empty : host.ShowsFile path [])
    (happenings : List Happening) :
    ∃ session lines rest,
      Session.run path (happenings ++ [.read]) { host } = .ok session ∧
      session.host.ShowsFile path (appended happenings) ∧
      Lined (appended happenings) lines rest ∧
      session.lines = lines.filter (!·.isEmpty) ∧
      BehindLastBreak (appended happenings) session.offset := by
  have hstart : Session.Stands path { host } [] [] := ⟨empty, by simp, rfl, rfl⟩
  obtain ⟨before, lines, text, hrun, hbefore, hlog⟩ := hstart.run happenings
  rw [show terminated [] ++ [] ++ appended happenings = appended happenings from rfl] at hlog
  obtain ⟨more, rest, hmore⟩ := exists_lined text
  obtain ⟨session, hread, hstands⟩ := hbefore.read hmore
  have hlined := hmore.behind hbefore.lines_whole
  rw [hlog] at hlined
  refine ⟨session, lines ++ more, rest, ?_, ?_, hlined, hstands.lines_eq, ?_⟩
  · rw [Session.run_read hrun, hread]
  · rw [hlined.text_eq]
    exact hstands.shows
  · have hoffset : session.offset = (appended happenings).length - rest.length := by
      rw [hstands.offset_eq, hlined.text_eq, List.length_append, Nat.add_sub_cancel]
    rw [hoffset]
    exact hlined.behindLastBreak

/-- A disk with one empty file, `l`. -/
def emptyLog : Host := { disk := ⟨[([[108]], .file [])]⟩ }

/-- A line in two pieces, an empty line, and a character whose two bytes arrive with a visit between. -/
theorem run_delivers_split_character :
    emptyLog.ShowsFile ⟨[108]⟩ [] ∧
    ∃ session, Session.run ⟨[108]⟩ ([.append [97], .read, .append [98, 10, 10, 195], .read,
        .append [169, 10, 120]] ++ [.read]) { host := emptyLog } = .ok session ∧
      session.lines = [[97, 98], [195, 169]] ∧ session.offset = 7 := by
  have hempty : emptyLog.ShowsFile ⟨[108]⟩ [] := ⟨rfl, [[108]], rfl⟩
  obtain ⟨session, lines, rest, hrun, -, hlined, hlines, hoffset⟩ :=
    run_delivers_each_line_once hempty [.append [97], .read, .append [98, 10, 10, 195], .read,
      .append [169, 10, 120]]
  refine ⟨hempty, session, hrun, ?_, ?_⟩
  · obtain ⟨rfl, -⟩ := hlined.unique
      (⟨by decide, by decide, by decide⟩ : Lined _ [[97, 98], [], [195, 169]] [120])
    exact hlines
  · exact hoffset.unique ⟨by decide, by decide, by decide⟩

end Chronicle.Tail
