import Chronicle.Proofs.Json.OneLine
import Chronicle.Proofs.Spool.Files
import Chronicle.Proofs.Storage.Granted
import Chronicle.Proofs.Tail.Lines
import Mathlib.Logic.Function.Basic

/-!
A spool store is a map of independent logs.

A log is the bytes that are kept under an identifier, none if there are none yet. The store keeps each in
a file of its own, in a directory that it makes when it first adds lines, and takes a shortcut where a file is
missing and where it has the wanted size already. From outside nothing of this can be seen: whatever is
asked, and in whatever order, the answers are those of the map, and so is what is left in the files.
-/

namespace Chronicle.Spool

open Disk

/-! ### The map -/

/-- What is asked of a store. -/
inductive Call
  | append (bundleId : Bytes) (events : List Event)
  | truncate (bundleId : Bytes) (size : Nat)
  | size (bundleId : Bytes)
  deriving Repr

inductive Reply
  | path (path : Path)
  | size (bytes : Nat)
  deriving DecidableEq, Repr

def Call.bundleId : Call → Bytes
  | append bundleId _ => bundleId
  | truncate bundleId _ => bundleId
  | size bundleId => bundleId

/-- The bytes under each identifier. -/
abbrev Logs := Bytes → Bytes

/-- The line of an event, without the line break behind it. -/
def Event.text (event : Event) : Bytes := event.document.compact

namespace Store

/-- The path of a spool. -/
def pathOf (store : Store) (bundleId : Bytes) : Path :=
  store.directory.join (bundleId ++ utf8 ".jsonl")

/-- What a map of logs answers for an identifier that can name one, and what is in it afterwards. -/
def answerSafe (store : Store) : Call → Logs → Except StoreFault Reply × Logs
  | .append bundleId events, logs =>
    (.ok (.path (store.pathOf bundleId)), Function.update logs bundleId
      (logs bundleId ++ Tail.terminated (events.map Event.text)))
  | .truncate bundleId size, logs =>
    if (logs bundleId).length < size then
      (.error (.tooShort (store.pathOf bundleId) (logs bundleId).length size), logs)
    else
      (.ok (.path (store.pathOf bundleId)), Function.update logs bundleId ((logs bundleId).take size))
  | .size bundleId, logs => (.ok (.size (logs bundleId).length), logs)

/-- What a map of logs answers, and what is in it afterwards. -/
def answer (store : Store) (call : Call) (logs : Logs) : Except StoreFault Reply × Logs :=
  if isSafe call.bundleId then store.answerSafe call logs
  else (.error (.invalidId call.bundleId), logs)

/-- What a map of logs answers to calls in turn, and what is in it afterwards. -/
def answers (store : Store) : List Call → Logs → List (Except StoreFault Reply) × Logs
  | [], logs => ([], logs)
  | call :: rest, logs =>
    let (reply, next) := store.answer call logs
    let (replies, last) := store.answers rest next
    (reply :: replies, last)

/-! ### The store -/

/-- One call of a store. -/
def perform (store : Store) : Call → Program Reply
  | .append bundleId events => return .path (← store.append bundleId events)
  | .truncate bundleId size => return .path (← store.truncate bundleId size)
  | .size bundleId => return .size (← store.size bundleId)

/-- Calls of a store in turn, whatever became of those before. -/
def serve (store : Store) : List Call → Host → List (Except Failure Reply) × Host
  | [], host => ([], host)
  | call :: rest, host =>
    let (reply, next) := (store.perform call).runOn host
    let (replies, last) := store.serve rest next
    (reply :: replies, last)

/-- An identifier whose file name the file system accepts. -/
structure Accepts (store : Store) (bundleId : Bytes) : Prop where
  safe : isSafe bundleId = true
  no_null : (0 : UInt8) ∉ bundleId
  short : (bundleId ++ utf8 ".jsonl").length ≤ longestName
  path_short : (store.pathOf bundleId).text.length ≤ longestPath

instance (store : Store) (bundleId : Bytes) : Decidable (store.Accepts bundleId) :=
  decidable_of_iff (isSafe bundleId = true ∧ (0 : UInt8) ∉ bundleId ∧
      (bundleId ++ utf8 ".jsonl").length ≤ longestName ∧
      (store.pathOf bundleId).text.length ≤ longestPath)
    ⟨fun ⟨hsafe, hnull, hshort, hpath⟩ => ⟨hsafe, hnull, hshort, hpath⟩,
      fun h => ⟨h.safe, h.no_null, h.short, h.path_short⟩⟩

/-- A store whose directory is there, or is made when it is asked for, and in which there is a file, or
nothing, under the name of each spool. -/
structure Usable (store : Store) (host : Host) (made : Disk) (base : Key) : Prop where
  no_null : (0 : UInt8) ∉ store.directory.text
  opening : host.limits.opening = true
  unlimited : host.limits.largestFile = none
  granted : ∀ bundleId, store.Accepts bundleId →
    (Storage.ensureParent (store.pathOf bundleId)).runOn host = (.ok (), { host with disk := made })
  opens : made.Opens host.here store.directory base
  writable : ∀ bundleId, store.Accepts bundleId → made.Writable (base ++ [bundleId ++ utf8 ".jsonl"])
  /-- no spool is hidden behind a directory that is missing -/
  known : ∀ bundleId, store.Accepts bundleId →
    store.content host bundleId = made.bytesAt (base ++ [bundleId ++ utf8 ".jsonl"])

variable {store : Store} {host : Host} {made : Disk} {base : Key} {bundleId : Bytes}

/-! ### Names -/

lemma isName_of_safe (hsafe : isSafe bundleId = true) (hnull : (0 : UInt8) ∉ bundleId) :
    IsName (bundleId ++ utf8 ".jsonl") := by
  have hlength : 6 ≤ (bundleId ++ utf8 ".jsonl").length := by
    rw [List.length_append]
    exact Nat.le_add_left _ _
  refine ⟨fun h => ?_, fun h => ?_, fun h => ?_, fun h => ?_, fun h => ?_⟩
  · simp [h] at hlength
  · simp [h] at hlength
  · simp [h] at hlength
  · rcases List.mem_append.mp h with hid | hend
    · simp only [isSafe, Bool.and_eq_true, Bool.not_eq_true', List.any_eq_false] at hsafe
      exact hsafe.1.1.2 _ hid (by decide)
    · exact absurd hend (by decide)
  · rcases List.mem_append.mp h with hid | hend
    · exact hnull hid
    · exact absurd hend (by decide)

lemma Accepts.file? (h : store.Accepts bundleId) :
    store.file? bundleId = .ok (store.pathOf bundleId) := by
  rw [Store.file?, if_pos h.safe, pathOf]

lemma Accepts.fits (h : store.Accepts bundleId) (hnull : (0 : UInt8) ∉ store.directory.text) :
    Fits store.directory (bundleId ++ utf8 ".jsonl") :=
  ⟨isName_of_safe h.safe h.no_null, h.short, h.path_short, hnull⟩

lemma key_injective {other : Bytes}
    (h : base ++ [bundleId ++ utf8 ".jsonl"] = base ++ [other ++ utf8 ".jsonl"]) : bundleId = other := by
  simpa using h

/-! ### A directory that is there -/

lemma leads_pathOf {disk : Disk} {here : Standing} (hid : store.Accepts bundleId)
    (hnull : (0 : UInt8) ∉ store.directory.text) (hopens : disk.Opens here store.directory base)
    (hwritable : disk.Writable (base ++ [bundleId ++ utf8 ".jsonl"])) :
    disk.Leads here true (store.pathOf bundleId) (base ++ [bundleId ++ utf8 ".jsonl"]) :=
  hopens.leads (hid.fits hnull) fun _ => hwritable.not_link

lemma content_of_leads {key : Key} (hid : store.Accepts bundleId)
    (hleads : host.disk.Leads host.here true (store.pathOf bundleId) key) :
    store.content host bundleId = host.disk.bytesAt key := by
  rw [content, hid.file?]
  dsimp only
  rw [getD_content?, hleads, placeAt, bytesAt]
  rcases host.disk.find? key with _ | entry
  · rfl
  · cases entry <;> rfl

/-- A store whose directory is there is usable if there are files under the names of spools only. -/
lemma usable_of_opens (hnull : (0 : UInt8) ∉ store.directory.text)
    (hopening : host.limits.opening = true) (hunlimited : host.limits.largestFile = none)
    (hopens : host.disk.Opens host.here store.directory base)
    (hwritable : ∀ bundleId, store.Accepts bundleId →
      host.disk.Writable (base ++ [bundleId ++ utf8 ".jsonl"])) :
    store.Usable host host.disk base where
  no_null := hnull
  opening := hopening
  unlimited := hunlimited
  granted _ hid := Storage.runOn_ensureParent_of_opens (hid.fits hnull) hopens
  opens := hopens
  writable := hwritable
  known _ hid := content_of_leads hid (leads_pathOf hid hnull hopens (hwritable _ hid))

/-- The path of a spool leads nowhere before its directory is there; afterwards it leads to its file. -/
lemma Usable.there_or_nowhere (h : store.Usable host made base) (hid : store.Accepts bundleId) :
    host.disk = made ∨
      ∃ reason, host.disk.resolve host.here true (store.pathOf bundleId) = .error reason :=
  Storage.there_or_nowhere (hid.fits h.no_null) (h.granted bundleId hid)

lemma Usable.furnished (h : store.Usable host made base) (hid : store.Accepts bundleId) :
    Furnished host.disk made :=
  Storage.furnished_of_ensureParent (h.granted bundleId hid)

/-! ### The file of a spool is written -/

/-- With other bytes in the file of a spool, the store is as usable, and only this spool has changed. -/
lemma Usable.written (h : store.Usable host made base) (hid : store.Accepts bundleId) (bytes : Bytes) :
    let disk := made.set (base ++ [bundleId ++ utf8 ".jsonl"]) (.file bytes)
    store.Usable { host with disk := disk } disk base ∧
      ∀ other, store.Accepts other → store.content { host with disk := disk } other =
        Function.update (store.content host) bundleId bytes other := by
  intro disk
  have hwritable := h.writable bundleId hid
  have hopens : disk.Opens host.here store.directory base := (hwritable.kept_set bytes).opens h.opens
  have hfind : ∀ other, disk.find? (base ++ [other ++ utf8 ".jsonl"]) =
      if bundleId = other then some (.file bytes) else made.find? (base ++ [other ++ utf8 ".jsonl"]) := by
    intro other
    rw [find?_set made hwritable.ne_nil]
    refine if_congr ⟨key_injective, fun heq => by rw [heq]⟩ rfl rfl
  have hfree : ∀ other, store.Accepts other → disk.Writable (base ++ [other ++ utf8 ".jsonl"]) := by
    intro other hother
    rw [Writable, hfind other]
    split
    · exact Or.inr ⟨bytes, rfl⟩
    · exact h.writable other hother
  have husable : store.Usable { host with disk := disk } disk base :=
    usable_of_opens h.no_null h.opening h.unlimited hopens hfree
  refine ⟨husable, fun other hother => ?_⟩
  rw [husable.known other hother, Function.update_apply, bytesAt, hfind other]
  by_cases heq : other = bundleId
  · rw [if_pos heq.symm, if_pos heq]
  · rw [if_neg (Ne.symm heq), if_neg heq, h.known other hother]
    rfl

/-! ### Each call -/

/-- A spool is a file, or its log is empty. -/
lemma Usable.found (h : store.Usable host made base) (hid : store.Accepts bundleId) :
    (store.content host bundleId = [] ∧ ∃ reason,
      host.disk.status host.here (store.pathOf bundleId) = .error reason) ∨
    (host.disk = made ∧ host.disk.resolve host.here true (store.pathOf bundleId) =
      .ok (.present (.inside (base ++ [bundleId ++ utf8 ".jsonl"]))
        (.file (store.content host bundleId)))) := by
  have hwritable := h.writable bundleId hid
  rcases h.there_or_nowhere hid with rfl | ⟨reason, hnowhere⟩
  · have hleads := leads_pathOf hid h.no_null h.opens hwritable
    rw [content_of_leads hid hleads]
    rcases hwritable with hnone | ⟨content, hfile⟩
    · refine Or.inl ⟨by rw [bytesAt, hnone], .noEntry, ?_⟩
      rw [status, hleads, placeAt, hnone]
    · refine Or.inr ⟨rfl, ?_⟩
      rw [bytesAt_of_file hfile]
      exact hleads.resolve_eq hfile
  · refine Or.inl ⟨?_, reason, ?_⟩
    · rw [content, hid.file?]
      dsimp only
      rw [getD_content?, hnowhere]
      rfl
    · rw [status, hnowhere]

lemma Usable.runOn_size (h : store.Usable host made base) (hid : store.Accepts bundleId) :
    (store.size bundleId).runOn host = (.ok (store.content host bundleId).length, host) := by
  rw [Store.runOn_size hid.file?]
  rcases h.found hid with ⟨hempty, reason, hstatus⟩ | ⟨-, hresolve⟩
  · rw [hstatus, hempty]
    rfl
  · rw [status, hresolve]
    rfl

/-- What a call leaves: a usable store with these logs, and nothing but its spool has been touched. -/
def Leaves (store : Store) (host : Host) (base : Key) (bundleId : Bytes) (logs : Logs) (after : Host) :
    Prop :=
  (∃ made, store.Usable after made base) ∧
    (∀ other, store.Accepts other → store.content after other = logs other) ∧
    ∀ key, key ≠ base ++ [bundleId ++ utf8 ".jsonl"] → Spared host.disk after.disk key

lemma Usable.leaves_same (h : store.Usable host made base) (bundleId : Bytes) :
    store.Leaves host base bundleId (store.content host) host :=
  ⟨⟨made, h⟩, fun _ _ => rfl, fun key _ => Spared.refl host.disk key⟩

lemma Usable.leaves_written (h : store.Usable host made base) (hid : store.Accepts bundleId)
    (bytes : Bytes) :
    store.Leaves host base bundleId (Function.update (store.content host) bundleId bytes)
      { host with disk := made.set (base ++ [bundleId ++ utf8 ".jsonl"]) (.file bytes) } := by
  obtain ⟨husable, hlogs⟩ := h.written hid bytes
  refine ⟨⟨_, husable⟩, hlogs, fun key hkey => (h.furnished hid key).trans (Or.inl ?_)⟩
  rw [find?_set made (h.writable bundleId hid).ne_nil, if_neg hkey.symm]

lemma Usable.runOn_truncate (h : store.Usable host made base) (hid : store.Accepts bundleId)
    {size : Nat} (hsize : size ≤ (store.content host bundleId).length) :
    ∃ after, (store.truncate bundleId size).runOn host = (.ok (store.pathOf bundleId), after) ∧
      store.Leaves host base bundleId
        (Function.update (store.content host) bundleId ((store.content host bundleId).take size))
        after := by
  rw [truncate_eq hid.file?, Program.runOn_bind, h.runOn_size hid]
  dsimp only
  rw [cutFile]
  split
  · next hsame =>
    refine ⟨host, rfl, ?_⟩
    rw [← hsame, List.take_length, Function.update_eq_self]
    exact h.leaves_same bundleId
  next hdiffers =>
  rw [if_neg (Nat.not_lt.mpr hsize), Program.runOn_request_bind]
  rcases h.found hid with ⟨hempty, -⟩ | ⟨rfl, hresolve⟩
  · rw [hempty] at hsize hdiffers
    exact absurd (Nat.le_zero.mp hsize).symm hdiffers
  · rw [answer_truncate hresolve hsize]
    exact ⟨_, rfl, h.leaves_written hid _⟩

lemma Usable.runOn_truncate_short (h : store.Usable host made base) (hid : store.Accepts bundleId)
    {size : Nat} (hsize : (store.content host bundleId).length < size) :
    (store.truncate bundleId size).runOn host = (.error (.reported (StoreFault.tooShort
      (store.pathOf bundleId) (store.content host bundleId).length size).problem), host) := by
  rw [truncate_eq hid.file?, Program.runOn_bind, h.runOn_size hid]
  dsimp only
  rw [cutFile]
  rw [if_neg (Nat.ne_of_lt hsize), if_pos hsize]
  rfl

lemma lines_eq (events : List Event) : lines events = Tail.terminated (events.map Event.text) := by
  rw [lines, Tail.terminated, List.flatMap_map]
  rfl

lemma Usable.runOn_append (h : store.Usable host made base) (hid : store.Accepts bundleId)
    (events : List Event) :
    ∃ after, (store.append bundleId events).runOn host = (.ok (store.pathOf bundleId), after) ∧
      store.Leaves host base bundleId (Function.update (store.content host) bundleId
        (store.content host bundleId ++ Tail.terminated (events.map Event.text))) after := by
  rw [append, file_eq hid.file?, Program.done_bind]
  split
  · next hnone =>
    refine ⟨host, rfl, ?_⟩
    rw [List.isEmpty_iff.mp hnone, List.map_nil, Tail.terminated, List.flatMap_nil, List.append_nil,
      Function.update_eq_self]
    exact h.leaves_same bundleId
  · have hwritable := h.writable bundleId hid
    have happend : made.append host.here host.limits (store.pathOf bundleId) (lines events) =
        (.written, made.set (base ++ [bundleId ++ utf8 ".jsonl"])
          (.file (made.bytesAt (base ++ [bundleId ++ utf8 ".jsonl"]) ++ lines events))) :=
      writeBehind_of_leads h.opening h.unlimited (leads_pathOf hid h.no_null h.opens hwritable) hwritable rfl _
    rw [← h.known bundleId hid] at happend
    refine ⟨_, ?_, h.leaves_written hid _⟩
    rw [Storage.appendTo, Program.runOn_bind, h.granted bundleId hid, ← lines_eq]
    dsimp only
    rw [Program.runOn_request_bind, Host.answer]
    dsimp only
    rw [happend]
    rfl

/-- What the store says where the map gives an answer. -/
def said (answer : Except StoreFault Reply) : Except Failure Reply :=
  answer.mapError fun fault => .reported fault.problem

lemma Usable.perform_safe (h : store.Usable host made base) (call : Call)
    (hid : store.Accepts call.bundleId) :
    ∃ after, (store.perform call).runOn host =
        (said (store.answerSafe call (store.content host)).1, after) ∧
      store.Leaves host base call.bundleId (store.answerSafe call (store.content host)).2 after := by
  cases call with
  | append bundleId events =>
    have hid : store.Accepts bundleId := hid
    obtain ⟨after, hrun, hleaves⟩ := h.runOn_append hid events
    refine ⟨after, ?_, hleaves⟩
    rw [perform, Program.runOn_bind, hrun]
    rfl
  | truncate bundleId size =>
    have hid : store.Accepts bundleId := hid
    rw [answerSafe]
    split
    · next hshort =>
      refine ⟨host, ?_, h.leaves_same bundleId⟩
      rw [perform, Program.runOn_bind, h.runOn_truncate_short hid hshort]
      rfl
    · next hlong =>
      obtain ⟨after, hrun, hleaves⟩ := h.runOn_truncate hid (Nat.not_lt.mp hlong)
      refine ⟨after, ?_, hleaves⟩
      rw [perform, Program.runOn_bind, hrun]
      rfl
  | size bundleId =>
    have hid : store.Accepts bundleId := hid
    refine ⟨host, ?_, h.leaves_same bundleId⟩
    rw [perform, Program.runOn_bind, h.runOn_size hid]
    rfl

lemma perform_unsafe (store : Store) (call : Call) (hsafe : ¬ isSafe call.bundleId = true) (host : Host) :
    (store.perform call).runOn host =
      (.error (.reported (StoreFault.invalidId call.bundleId).problem), host) := by
  have hfile : store.file? call.bundleId = .error (.invalidId call.bundleId) := by
    rw [Store.file?, if_neg hsafe]
  cases call with
  | append bundleId events =>
    have hfile : store.file bundleId = _ := file_error hfile
    rw [perform, append, hfile]
    rfl
  | truncate bundleId size =>
    have hfile : store.file bundleId = _ := file_error hfile
    rw [perform, truncate, Store.size, hfile]
    rfl
  | size bundleId =>
    have hfile : store.file bundleId = _ := file_error hfile
    rw [perform, Store.size, hfile]
    rfl

/-- **One call**: the store answers as the map does, and keeps what the map keeps. -/
theorem Usable.perform (h : store.Usable host made base) (call : Call)
    (hid : isSafe call.bundleId = true → store.Accepts call.bundleId) :
    ∃ after, (store.perform call).runOn host =
        (said (store.answer call (store.content host)).1, after) ∧
      store.Leaves host base call.bundleId (store.answer call (store.content host)).2 after := by
  unfold answer
  split
  · next hsafe => exact h.perform_safe call (hid hsafe)
  · next hsafe => exact ⟨host, perform_unsafe store call hsafe host, h.leaves_same _⟩

/-! ### Calls in turn -/

lemma answer_congr {logs logs' : Logs} {known : Bytes → Prop} {call : Call}
    (hknown : isSafe call.bundleId = true → known call.bundleId)
    (h : ∀ id, known id → logs id = logs' id) :
    (store.answer call logs).1 = (store.answer call logs').1 ∧
      ∀ id, known id → (store.answer call logs).2 id = (store.answer call logs').2 id := by
  unfold answer
  split
  · next hsafe =>
    have hid := h _ (hknown hsafe)
    cases call with
    | append bundleId events =>
      have hid : logs bundleId = logs' bundleId := hid
      simp only [answerSafe, hid, Function.update_apply]
      exact ⟨trivial, fun id hknown => by rw [h id hknown]⟩
    | truncate bundleId size =>
      have hid : logs bundleId = logs' bundleId := hid
      rw [answerSafe, answerSafe, hid]
      split
      · exact ⟨rfl, h⟩
      · simp only [Function.update_apply]
        exact ⟨trivial, fun id hknown => by rw [h id hknown]⟩
    | size bundleId =>
      have hid : logs bundleId = logs' bundleId := hid
      rw [answerSafe, answerSafe, hid]
      exact ⟨rfl, h⟩
  · exact ⟨rfl, h⟩

/-- **Calls in turn**: a usable store goes on to answer as the map does, and touches no files but those of
the spools it is asked about. -/
theorem Usable.serve (h : store.Usable host made base) {calls : List Call} {logs : Logs}
    (hids : ∀ call ∈ calls, isSafe call.bundleId = true → store.Accepts call.bundleId)
    (hlogs : ∀ bundleId, store.Accepts bundleId → store.content host bundleId = logs bundleId) :
    (store.serve calls host).1 = (store.answers calls logs).1.map said ∧
      (∃ made, store.Usable (store.serve calls host).2 made base) ∧
      (∀ bundleId, store.Accepts bundleId →
        store.content (store.serve calls host).2 bundleId = (store.answers calls logs).2 bundleId) ∧
      ∀ key, (∀ call ∈ calls, key ≠ base ++ [call.bundleId ++ utf8 ".jsonl"]) →
        Spared host.disk (store.serve calls host).2.disk key := by
  induction calls generalizing host made logs with
  | nil => exact ⟨rfl, ⟨made, h⟩, hlogs, fun key _ => Spared.refl host.disk key⟩
  | cons call rest ih =>
    have hid := hids call List.mem_cons_self
    obtain ⟨after, hrun, ⟨made', husable⟩, hcontent, hspared⟩ := h.perform call hid
    obtain ⟨hanswer, hnext⟩ := answer_congr hid hlogs
    have hlogs' : ∀ id, store.Accepts id → store.content after id = (store.answer call logs).2 id :=
      fun id haccepts => (hcontent id haccepts).trans (hnext id haccepts)
    obtain ⟨hreplies, hlast, hkept, hothers⟩ :=
      ih husable (fun call hcall => hids call (List.mem_cons_of_mem _ hcall)) hlogs'
    simp only [Store.serve, answers, hrun]
    refine ⟨?_, hlast, hkept, fun key hkey => ?_⟩
    · rw [List.map_cons, hreplies, hanswer]
    · exact (hspared key (hkey call List.mem_cons_self)).trans
        (hothers key fun other hother => hkey other (List.mem_cons_of_mem _ hother))

/-- Calls that add events, to whatever spools. -/
def Appends (calls : List Call) : Prop :=
  ∀ call ∈ calls, ∃ bundleId events, call = .append bundleId events

lemma prefix_answers {calls : List Call} (h : Appends calls) (logs : Logs) (bundleId : Bytes) :
    logs bundleId <+: (store.answers calls logs).2 bundleId := by
  induction calls generalizing logs with
  | nil => exact List.prefix_rfl
  | cons call rest ih =>
    obtain ⟨other, events, rfl⟩ := h call List.mem_cons_self
    have hfirst : logs bundleId <+: (store.answer (.append other events) logs).2 bundleId := by
      rw [answer]
      split
      · simp only [answerSafe, Function.update_apply]
        split
        · next heq =>
          rw [heq]
          exact List.prefix_append _ _
        · exact List.prefix_rfl
      · exact List.prefix_rfl
    exact hfirst.trans (ih (fun call hcall => h call (List.mem_cons_of_mem _ hcall)) _)

lemma Usable.restores (h : store.Usable host made base) (hid : store.Accepts bundleId)
    {appends : List Call} (happends : Appends appends)
    (hids : ∀ call ∈ appends, isSafe call.bundleId = true → store.Accepts call.bundleId) {size : Nat}
    (hsize : ((store.size bundleId).runOn host).1 = .ok size) :
    ∃ after, (store.truncate bundleId size).runOn (store.serve appends host).2 =
        (.ok (store.pathOf bundleId), after) ∧
      store.content after bundleId = store.content host bundleId := by
  rw [h.runOn_size hid, Except.ok.injEq] at hsize
  obtain ⟨-, ⟨made', husable⟩, hlogs, -⟩ := h.serve hids fun _ _ => rfl
  have hprefix : store.content host bundleId <+:
      store.content (store.serve appends host).2 bundleId := by
    rw [hlogs bundleId hid]
    exact prefix_answers happends (store.content host) bundleId
  obtain ⟨after, hrun, -, hcontent, -⟩ := husable.runOn_truncate hid (hsize ▸ hprefix.length_le)
  refine ⟨after, hrun, ?_⟩
  rw [hcontent bundleId hid, Function.update_self, ← hsize]
  exact (List.prefix_iff_eq_take.mp hprefix).symm

end Store

/-- **A spool store is a map of independent logs.** Calls in any order, with any identifiers whose file names
the file system accepts and with any that cannot be identifiers of spools, are answered as a map from
identifiers to bytes answers them that begins with what is found under each identifier, and this map is what
is found in the end. The text of an event has no line break in it, no file is touched but those of the
spools that were asked about, and cutting a spool back to its size before any events were added, to
it or to others, brings back the bytes it had. -/
theorem store_serves_logs {store : Store} {host : Host} {made : Disk} {base : Key} {calls : List Call}
    (usable : store.Usable host made base)
    (accepted : ∀ call ∈ calls, isSafe call.bundleId = true → store.Accepts call.bundleId) :
    (store.serve calls host).1 =
        (store.answers calls (store.content host)).1.map Store.said ∧
      (∀ bundleId, store.Accepts bundleId → store.content (store.serve calls host).2 bundleId =
        (store.answers calls (store.content host)).2 bundleId) ∧
      (∀ event : Event, Bytes.newline ∉ event.text) ∧
      (∀ key, (∀ call ∈ calls, key ≠ base ++ [call.bundleId ++ utf8 ".jsonl"]) →
        Spared host.disk (store.serve calls host).2.disk key) ∧
      ∀ bundleId, store.Accepts bundleId → Store.Appends calls →
        ∀ size, ((store.size bundleId).runOn host).1 = .ok size →
          ∃ after, (store.truncate bundleId size).runOn (store.serve calls host).2 =
              (.ok (store.pathOf bundleId), after) ∧
            store.content after bundleId = store.content host bundleId := by
  obtain ⟨hreplies, -, hlogs, hspared⟩ := usable.serve accepted fun _ _ => rfl
  refine ⟨hreplies, hlogs, fun event => (Json.uncontrolled_compact _).newline_notMem, hspared, ?_⟩
  exact fun bundleId hid happends size hsize => usable.restores hid happends accepted hsize

/-! ### A store whose directory is missing -/

def emptyStore : Store := ⟨⟨utf8 "s"⟩⟩

/-- The disk once the directory of the spools has been made. -/
def emptyShelf : Disk := ⟨[([utf8 "s"], .directory)]⟩

lemma emptyStore_usable : emptyStore.Usable {} emptyShelf [utf8 "s"] where
  no_null := by decide
  opening := rfl
  unlimited := rfl
  granted bundleId hid := by
    have hunended : emptyStore.directory.Unended := ⟨by decide, by decide⟩
    have hparent : (emptyStore.pathOf bundleId).parent = emptyStore.directory :=
      hunended.parent_join (Store.isName_of_safe hid.safe hid.no_null)
    rw [Storage.ensureParent, hparent]
    rfl
  opens := rfl
  writable bundleId hid := Or.inl (by simp [find?, findEntry, emptyShelf])
  known bundleId hid := by
    have hmissing : ∀ base, ¬ ({} : Host).disk.Opens ({} : Host).here emptyStore.directory base :=
      fun base hopens => by cases hopens
    have hnowhere : ∃ reason, ({} : Host).disk.resolve ({} : Host).here true (emptyStore.pathOf bundleId) =
        .error reason := resolve_join_of_not_opens (hid.fits (by decide)) hmissing
    obtain ⟨reason, hreason⟩ := hnowhere
    rw [Store.content, hid.file?]
    dsimp only
    rw [getD_content?, hreason]
    simp [foundBytes, bytesAt, find?, findEntry, emptyShelf]

/-- Two spools, an identifier that cannot be that of a spool, and a cut that is refused. -/
def emptyStoreCalls : List Call :=
  [.size (utf8 "a"), .append (utf8 "a") [{ ts := utf8 "t", kind := utf8 "k" }], .append (utf8 "../b") [],
    .truncate (utf8 "a") 1000, .append (utf8 "b") [{ ts := utf8 "t", kind := utf8 "k" }],
    .truncate (utf8 "a") 3]

theorem store_serves_logs_emptyStore :
    emptyStore.Usable {} emptyShelf [utf8 "s"] ∧
    (∀ call ∈ emptyStoreCalls, isSafe call.bundleId = true → emptyStore.Accepts call.bundleId) ∧
    (emptyStore.serve emptyStoreCalls {}).1 =
      (emptyStore.answers emptyStoreCalls (emptyStore.content {})).1.map Store.said ∧
    emptyStore.content (emptyStore.serve emptyStoreCalls {}).2 (utf8 "a") =
      (emptyStore.answers emptyStoreCalls (emptyStore.content {})).2 (utf8 "a") := by
  have accepted : ∀ call ∈ emptyStoreCalls, isSafe call.bundleId = true →
      emptyStore.Accepts call.bundleId := by decide +kernel
  obtain ⟨hreplies, hlogs, -⟩ := store_serves_logs emptyStore_usable accepted
  exact ⟨emptyStore_usable, accepted, hreplies, hlogs _ (by decide +kernel)⟩

end Chronicle.Spool
