import Chronicle.Commit.Journal
import Chronicle.Proofs.Disk.Seen
import Chronicle.Proofs.Spool.Identifiers
import Chronicle.Proofs.Spool.Shelf

/-!
Identifiers that are too long for a file.

The name of an agent is as long as a log says, and the name of a file is not. A spool whose name or path is too
long looks like one that is missing: its size is zero, and it can be cut to zero. But no line can be added
to it, so a commit for it fails when its journal has been written, and goes on to fail whenever the journal
is carried out again.
-/

namespace Chronicle.Spool

open Disk

/-! ### What the system sees of an identifier -/

/-- The name of the file of a spool, as far as the system sees it. -/
def seenName (bundleId : Bytes) : Bytes := seen (bundleId ++ utf8 ".jsonl")

/-- An identifier that can name a spool, also if the system does not see all of it. -/
structure Sound (bundleId : Bytes) : Prop where
  safe : isSafe bundleId = true
  no_slash : Bytes.slash ∉ bundleId ++ utf8 ".jsonl"
  is_name : IsName (seenName bundleId)

/-- The system sees the day at least. -/
lemma sound_bundleId {today : Bytes} (htoday : IsDay today) (event : Event) :
    Sound (bundleId today event) := by
  have hday := dayOf_isDay htoday event.ts
  have hsafe : isSafe (bundleId today event) = true :=
    isSafe_append hday (agentPart_no_slash event.agentId)
  have hslash : Bytes.slash ∉ bundleId today event ++ utf8 ".jsonl" := by
    rw [List.mem_append, not_or]
    exact ⟨no_slash_of_isSafe hsafe, by decide⟩
  have hlong : 2 < (seenName (bundleId today event)).length := by
    rw [seenName, bundleId, List.append_assoc, List.append_assoc,
      seen_append (hday.not_mem (by decide) (by decide)), List.length_append, hday.length]
    omega
  have hne : ∀ short : Bytes, short.length ≤ 2 → seenName (bundleId today event) ≠ short := by
    intro short hshort heq
    rw [heq] at hlong
    omega
  exact ⟨hsafe, hslash, hne [] (by decide), hne [Bytes.dot] (by decide),
    hne [Bytes.dot, Bytes.dot] (by decide), fun hmem => hslash (seen_subset _ hmem), seen_no_null _⟩

namespace Store

variable {store : Store} {host : Host} {base : Key} {bundleId : Bytes} {events : List Event}

/-- Names of files may be as long as that of a spool, and paths as long as its path, as far as the system sees
them. -/
structure Nameable (store : Store) (bundleId : Bytes) : Prop where
  short : (seenName bundleId).length ≤ longestName
  path_short : (systemText (store.pathOf bundleId)).length ≤ longestPath

instance (store : Store) (bundleId : Bytes) : Decidable (store.Nameable bundleId) :=
  decidable_of_iff ((seenName bundleId).length ≤ longestName ∧
      (systemText (store.pathOf bundleId)).length ≤ longestPath)
    ⟨fun ⟨hshort, hpath⟩ => ⟨hshort, hpath⟩, fun h => ⟨h.short, h.path_short⟩⟩

/-! ### Spools that cannot be named -/

lemma resolve_of_not_nameable (hid : Sound bundleId) (hnull : (0 : UInt8) ∉ store.directory.text)
    (hlong : ¬ store.Nameable bundleId) (disk : Disk) (here : Standing) (follow : Bool) :
    ∃ reason, disk.resolve here follow (store.pathOf bundleId) = .error reason := by
  obtain ⟨hsees, hresolve⟩ := resolve_join_seen hid.no_slash hnull disk here follow
  rw [pathOf, hresolve]
  refine resolve_too_long hid.is_name hnull (fun h => hlong ⟨h.1, ?_⟩) disk here follow
  rw [pathOf, hsees]
  exact h.2

lemma runOn_truncate_zero {reason : Errno} (hid : Sound bundleId)
    (hnowhere : host.disk.status host.here (store.pathOf bundleId) = .error reason) :
    (store.size bundleId).runOn host = (.ok 0, host) ∧
      (store.truncate bundleId 0).runOn host = (.ok (store.pathOf bundleId), host) := by
  have hfile : store.file? bundleId = .ok (store.pathOf bundleId) := if_pos hid.safe
  have hsize : (store.size bundleId).runOn host = (.ok 0, host) := by
    rw [runOn_size hfile, hnowhere]
  refine ⟨hsize, ?_⟩
  rw [truncate_eq hfile, Program.runOn_bind, hsize]
  rfl

lemma append_eq (hid : Sound bundleId) (hevents : events ≠ []) :
    store.append bundleId events = Storage.appendTo (store.pathOf bundleId) (lines events) := by
  have hfile : store.file? bundleId = .ok (store.pathOf bundleId) := if_pos hid.safe
  have hsome : ¬ events.isEmpty = true := by simpa using hevents
  rw [append, file_eq hfile, Program.done_bind, if_neg hsome]

lemma append_unopened {disk : Disk} {here : Standing} {path : Path} {reason : Errno}
    (hnowhere : disk.resolve here true path = .error reason) (limits : Limits) (data : Bytes) :
    disk.append here limits path data = (.unopened, disk) := by
  unfold Disk.append writeBehind
  rw [hnowhere]
  split <;> rfl

/-- **No host adds lines to a spool that cannot be named.** -/
theorem append_refused (hid : Sound bundleId) (hnull : (0 : UInt8) ∉ store.directory.text)
    (hlong : ¬ store.Nameable bundleId) (hevents : events ≠ []) (host : Host) :
    ∃ failure after, (store.append bundleId events).runOn host = (.error failure, after) := by
  rw [append_eq hid hevents, Storage.appendTo, Program.runOn_bind]
  rcases hensured : (Storage.ensureParent (store.pathOf bundleId)).runOn host with ⟨failure | _, after⟩
  · exact ⟨failure, after, rfl⟩
  · obtain ⟨reason, hreason⟩ := resolve_of_not_nameable hid hnull hlong after.disk after.here true
    dsimp only
    rw [Program.runOn_request_bind, Host.answer, append_unopened hreason]
    exact ⟨_, _, rfl⟩

/-! ### A directory that is there and empty -/

/-- A store whose directory is there and empty, on a host where files can be opened and may grow. -/
structure Blank (store : Store) (host : Host) (base : Key) : Prop where
  no_null : (0 : UInt8) ∉ store.directory.text
  opening : host.limits.opening = true
  unlimited : host.limits.largestFile = none
  there : host.disk.resolve host.here true store.directory = .ok (.present (.inside base) .directory)
  empty : ∀ name, host.disk.find? (base ++ [name]) = none

namespace Blank

lemma runOn_ensureParent (h : store.Blank host base) (hid : Sound bundleId) :
    (Storage.ensureParent (store.pathOf bundleId)).runOn host = (.ok (), host) := by
  have hne : bundleId ++ utf8 ".jsonl" ≠ [] := by simp [show utf8 ".jsonl" ≠ [] from by decide]
  exact Storage.runOn_ensureParent_of_status
    (status_parent_of_resolve h.no_null hne hid.no_slash h.there)

lemma leads (h : store.Blank host base) (hid : Sound bundleId) (hshort : store.Nameable bundleId) :
    host.disk.Leads host.here true (store.pathOf bundleId) (base ++ [seenName bundleId]) := by
  obtain ⟨hsees, hresolve⟩ := resolve_join_seen hid.no_slash h.no_null host.disk host.here true
  have hfits : Fits store.directory (seenName bundleId) := by
    refine ⟨hid.is_name, hshort.short, ?_, h.no_null⟩
    rw [seenName, ← hsees]
    exact hshort.path_short
  obtain ⟨hopens, -⟩ := opens_of_resolve h.no_null h.there
  have hleads : host.disk.Leads host.here true (store.directory.join (seenName bundleId)) _ :=
    hopens.leads hfits fun _ target => by simp [h.empty]
  exact hresolve.trans hleads

lemma status (h : store.Blank host base) (hid : Sound bundleId) :
    ∃ reason, host.disk.status host.here (store.pathOf bundleId) = .error reason := by
  by_cases hshort : store.Nameable bundleId
  · refine ⟨.noEntry, ?_⟩
    rw [Disk.status, h.leads hid hshort, placeAt, h.empty]
  · obtain ⟨reason, hreason⟩ :=
      resolve_of_not_nameable hid h.no_null hshort host.disk host.here true
    exact ⟨reason, by rw [Disk.status, hreason]⟩

lemma runOn_append (h : store.Blank host base) (hid : Sound bundleId) (hshort : store.Nameable bundleId)
    (hevents : events ≠ []) :
    (store.append bundleId events).runOn host =
      (.ok (store.pathOf bundleId), { host with
        disk := host.disk.set (base ++ [seenName bundleId]) (.file (lines events)) }) := by
  have happend : host.disk.append host.here host.limits (store.pathOf bundleId) (lines events) =
      (.written, host.disk.set (base ++ [seenName bundleId])
        (.file (host.disk.bytesAt (base ++ [seenName bundleId]) ++ lines events))) :=
    writeBehind_of_leads h.opening h.unlimited (h.leads hid hshort) (Or.inl (h.empty _)) rfl _
  rw [bytesAt, h.empty] at happend
  rw [append_eq hid hevents, Storage.appendTo, Program.runOn_bind, h.runOn_ensureParent hid]
  dsimp only
  rw [Program.runOn_request_bind, Host.answer, happend]
  rfl

lemma runOn_append_refused (h : store.Blank host base) (hid : Sound bundleId)
    (hlong : ¬ store.Nameable bundleId) (hevents : events ≠ []) :
    (store.append bundleId events).runOn host =
      (.error (.reported (Storage.FileFault.openForAppend (store.pathOf bundleId)).problem), host) := by
  obtain ⟨reason, hreason⟩ := resolve_of_not_nameable hid h.no_null hlong host.disk host.here true
  rw [append_eq hid hevents, Storage.appendTo, Program.runOn_bind, h.runOn_ensureParent hid]
  dsimp only
  rw [Program.runOn_request_bind, Host.answer, append_unopened hreason]
  rfl

end Blank

end Store

/-! ### Commits -/

open Commit

variable {store : Store} {journal : Journal} {host : Host}

lemma runSteps_fails {steps : List Step} {step : Step} (hstep : step ∈ steps)
    (hfails : ∀ host, ∃ failure after, (journal.runStep store step).runOn host = (.error failure, after))
    (host : Host) :
    ∃ failure after, (journal.runSteps store steps).runOn host = (.error failure, after) := by
  induction steps generalizing host with
  | nil => cases hstep
  | cons first rest ih =>
    rw [Journal.runSteps, Program.runOn_bind]
    rcases hfirst : (journal.runStep store first).runOn host with ⟨failure | _, after⟩
    · exact ⟨failure, after, rfl⟩
    rcases List.mem_cons.mp hstep with rfl | hrest
    · obtain ⟨failure, other, hfailed⟩ := hfails host
      rw [hfirst] at hfailed
      cases hfailed
    · exact ih hrest after

/-- **No host carries out a commit** with lines for a spool that cannot be named. -/
theorem apply_refused {bundleId : Bytes} (hid : Sound bundleId) (hnull : (0 : UInt8) ∉ store.directory.text)
    (hlong : ¬ store.Nameable bundleId) {pending : Pending} {append : Append}
    (happend : append ∈ pending.appends) (hbundle : append.bundleId = bundleId)
    (hevents : append.events ≠ []) (host : Host) :
    ∃ failure after, (journal.apply store pending).runOn host = (.error failure, after) := by
  have hstep : Step.extendSpool append.bundleId append.events ∈ pending.steps := by
    refine List.mem_append_left _ (List.mem_flatMap.mpr ⟨append, happend, ?_⟩)
    simp
  have hfails : ∀ host, ∃ failure after, (journal.runStep store
      (.extendSpool append.bundleId append.events)).runOn host = (.error failure, after) := by
    intro host
    obtain ⟨failure, after, hrun⟩ := Store.append_refused hid hnull hlong hevents host
    rw [Journal.runStep, hbundle, Program.runOn_bind, hrun]
    exact ⟨failure, after, rfl⟩
  obtain ⟨failure, after, hrun⟩ := runSteps_fails hstep hfails host
  rw [Journal.apply, Program.runOn_bind, hrun]
  exact ⟨failure, after, rfl⟩

/-- Where the directory of the spools is empty, a commit that begins with such lines leaves everything as it is when
its journal has been written. -/
lemma Store.Blank.runOn_commit {bundleId : Bytes} {base : Key} {before : Host} {path : Path} {pending : Pending}
    {events : List Event} {rest : List Append} (h : store.Blank host base) (hid : Sound bundleId)
    (hlong : ¬ store.Nameable bundleId) (hevents : events ≠ [])
    (happends : pending.appends = ⟨bundleId, 0, events⟩ :: rest)
    (hwritten : (Storage.writeAtomically journal.path (Journal.textOf pending)).runOn before = (.ok path, host)) :
    (journal.commit store pending).runOn before =
      (.error (.reported (Storage.FileFault.openForAppend (store.pathOf bundleId)).problem), host) := by
  obtain ⟨reason, hstatus⟩ := h.status hid
  obtain ⟨-, hcut⟩ := Store.runOn_truncate_zero hid hstatus
  have hsteps : ∃ steps, pending.steps = .cutSpool bundleId 0 :: .extendSpool bundleId events :: steps := by
    rw [Pending.steps, happends]
    exact ⟨_, rfl⟩
  obtain ⟨steps, hsteps⟩ := hsteps
  have hfirst : (journal.runStep store (.cutSpool bundleId 0)).runOn host = (.ok (), host) := by
    rw [Journal.runStep, Program.runOn_bind, hcut]
    rfl
  have hsecond : (journal.runStep store (.extendSpool bundleId events)).runOn host =
      (.error (.reported (Storage.FileFault.openForAppend (store.pathOf bundleId)).problem), host) := by
    rw [Journal.runStep, Program.runOn_bind, h.runOn_append_refused hid hlong hevents]
  rw [Journal.commit, Program.runOn_bind, hwritten]
  dsimp only
  rw [Journal.apply, hsteps, Journal.runSteps, Program.runOn_bind, Program.runOn_bind, hfirst]
  dsimp only
  rw [Journal.runSteps, Program.runOn_bind, hsecond]

/-- **An event is spooled if the file system takes the name and the path.** In a directory that is there and empty,
the spool of any event looks empty and can be cut to nothing. If the system takes its name and its path, then a
file with the line of the event comes to be there, and nothing else changes. If it does not, no file is made; a
commit that begins with the event fails when its journal is written and leaves it there; and no host ever carries
out a commit with events for this spool. -/
theorem event_spooled_iff_nameable {base : Key} (blank : store.Blank host base) {today : Bytes}
    (htoday : IsDay today) (event : Event) :
    (store.size (bundleId today event)).runOn host = (.ok 0, host) ∧
    (store.truncate (bundleId today event) 0).runOn host =
      (.ok (store.pathOf (bundleId today event)), host) ∧
    (store.Nameable (bundleId today event) →
      (store.append (bundleId today event) [event]).runOn host =
        (.ok (store.pathOf (bundleId today event)), { host with
          disk := host.disk.set (base ++ [seenName (bundleId today event)]) (.file event.line) })) ∧
    (¬ store.Nameable (bundleId today event) →
      let refused : Failure :=
        .reported (Storage.FileFault.openForAppend (store.pathOf (bundleId today event))).problem
      (store.append (bundleId today event) [event]).runOn host = (.error refused, host) ∧
      (∀ (journal : Journal) (pending : Pending) (before : Host) (path : Path) (rest : List Append),
        pending.appends = ⟨bundleId today event, 0, [event]⟩ :: rest →
        (Storage.writeAtomically journal.path (Journal.textOf pending)).runOn before = (.ok path, host) →
        (journal.commit store pending).runOn before = (.error refused, host)) ∧
      ∀ (journal : Journal) (pending : Pending) (later : Host), ∀ append ∈ pending.appends,
        append.bundleId = bundleId today event → append.events ≠ [] →
        ∃ failure after, (journal.apply store pending).runOn later = (.error failure, after)) := by
  have hid := sound_bundleId htoday event
  have hevents : [event] ≠ [] := List.cons_ne_nil _ _
  -- Nothing is found in either case, because of the name or because nothing is there.
  obtain ⟨reason, hstatus⟩ := blank.status hid
  obtain ⟨hsize, hcut⟩ := Store.runOn_truncate_zero hid hstatus
  refine ⟨hsize, hcut, fun hshort => ?_, fun hlong => ⟨?_, ?_, ?_⟩⟩
  · have hlines : lines [event] = event.line := by simp [lines]
    rw [blank.runOn_append hid hshort hevents, hlines]
  · exact blank.runOn_append_refused hid hlong hevents
  · intro journal pending before path rest happends hwritten
    exact blank.runOn_commit hid hlong hevents happends hwritten
  · intro journal pending later append happend hbundle hsome
    exact apply_refused hid blank.no_null hlong happend hbundle hsome later

/-- A directory for spools with nothing in it. -/
def blankHost : Host where
  disk := ⟨[([utf8 "spool"], .directory)]⟩

def blankStore : Store := ⟨⟨utf8 "spool"⟩⟩

lemma blankStore_blank : blankStore.Blank blankHost [utf8 "spool"] where
  no_null := by decide
  opening := rfl
  unlimited := rfl
  there := by decide +kernel
  empty name := by simp [blankHost, find?, findEntry]

/-- An event of an agent whose name is as long as this. -/
def eventOfLength (length : Nat) : Event where
  ts := utf8 "2026-03-04T10:00:00Z"
  kind := utf8 "message"
  agentId := some (List.replicate length 97)

/-- With one letter more, the name of an agent is too long. -/
theorem event_spooled_iff_nameable_letters :
    blankStore.Blank blankHost [utf8 "spool"] ∧ IsDay (utf8 "2026-03-04") ∧
    ((blankStore.append (bundleId (utf8 "2026-03-04") (eventOfLength 237)) [eventOfLength 237]).runOn
      blankHost).1.isOk = true ∧
    ((blankStore.append (bundleId (utf8 "2026-03-04") (eventOfLength 238)) [eventOfLength 238]).runOn
      blankHost).2 = blankHost := by
  obtain ⟨-, -, hshort, -⟩ := event_spooled_iff_nameable blankStore_blank isDay_example (eventOfLength 237)
  obtain ⟨-, -, -, hlong⟩ := event_spooled_iff_nameable blankStore_blank isDay_example (eventOfLength 238)
  obtain ⟨hrefused, -, -⟩ := hlong (by decide +kernel)
  refine ⟨blankStore_blank, isDay_example, ?_, ?_⟩
  · rw [hshort (by decide +kernel)]
    rfl
  · rw [hrefused]

/-- Not every event can be spooled: an agent may have a name of three hundred letters. -/
theorem event_not_spooled :
    ¬ ∀ (store : Store) (host : Host) (base : Key) (today : Bytes) (event : Event),
      store.Blank host base → IsDay today →
        ∃ path after, (store.append (bundleId today event) [event]).runOn host = (.ok path, after) := by
  intro hall
  obtain ⟨path, after, hrun⟩ := hall blankStore blankHost _ (utf8 "2026-03-04") (eventOfLength 300)
    blankStore_blank isDay_example
  have hfails : ((blankStore.append (bundleId (utf8 "2026-03-04") (eventOfLength 300))
      [eventOfLength 300]).runOn blankHost).1.isOk = false := by decide +kernel
  rw [hrun] at hfails
  cases hfails

end Chronicle.Spool
