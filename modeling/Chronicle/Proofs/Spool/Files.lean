import Chronicle.Proofs.Storage.Writing
import Chronicle.Spool.Store

/-!
What cutting and extending does to a spool.

A spool is the file at the place where its path ends. A spool that is missing counts as empty, and that is
what the store goes by: it looks for the file under the path. So it has to be there if there is one at
that place; then a cut leaves the first bytes, and an extension puts lines behind them, wherever either is
cut off.
-/

namespace Chronicle.Spool.Store

open Disk Storage

variable {store : Store} {disk after : Disk} {here : Standing} {bundleId : Bytes} {path : Path}
  {host stopped : Host} {size : Nat} {events : List Event}

/-- The place where the path of a spool ends. -/
def place (store : Store) (disk : Disk) (here : Standing) (bundleId : Bytes) : Option Key :=
  match store.file? bundleId with
  | .ok path => disk.aim here true path
  | .error _ => none

/-- The links that the path of a spool goes over. -/
def crossed (store : Store) (disk : Disk) (here : Standing) (bundleId : Bytes) : List Key :=
  match store.file? bundleId with
  | .ok path => disk.crossed here true path
  | .error _ => []

/-- The bytes at the place of a spool. -/
def bytes (store : Store) (disk : Disk) (here : Standing) (bundleId : Bytes) : Bytes :=
  match store.place disk here bundleId with
  | some key => disk.bytesAt key
  | none => []

/-- What is found under the path of a spool; a spool that is missing counts as empty. -/
def content (store : Store) (host : Host) (bundleId : Bytes) : Bytes :=
  match store.file? bundleId with
  | .ok path => (host.disk.content? host.here path).getD []
  | .error _ => []

/-- A spool that has bytes is found under its path. A path that goes down into a missing directory and
up again does not lead to the file at its end before somebody makes that directory. -/
def Reachable (store : Store) (disk : Disk) (here : Standing) (bundleId : Bytes) : Prop :=
  ∀ path key, store.file? bundleId = .ok path → disk.aim here true path = some key →
    disk.bytesAt key ≠ [] → disk.Leads here true path key

lemma reachable_iff (store : Store) (disk : Disk) (here : Standing) (bundleId : Bytes) :
    (∀ path ∈ (store.file? bundleId).toOption, ∀ key ∈ disk.aim here true path,
      disk.bytesAt key ≠ [] →
        (disk.resolve here true path).toOption = some (disk.placeAt key)) ↔
      store.Reachable disk here bundleId := by
  simp only [Reachable, Leads, Option.mem_def, toOption_eq_some]
  exact ⟨fun h path key hfile => h path hfile key, fun h path hfile key => h path key hfile⟩

instance (store : Store) (disk : Disk) (here : Standing) (bundleId : Bytes) :
    Decidable (store.Reachable disk here bundleId) :=
  decidable_of_iff _ (reachable_iff store disk here bundleId)

/-- Nothing but the file at the place of a spool has changed, but for new directories. -/
structure Confined (store : Store) (here : Standing) (bundleId : Bytes) (disk after : Disk) :
    Prop where
  others : ∀ key, store.place disk here bundleId ≠ some key → Spared disk after key
  kept : ∀ replaced, Kept replaced disk after

/-- The spool of a bundle has these bytes now, and nothing else has changed. -/
structure Rewritten (store : Store) (here : Standing) (bundleId : Bytes) (disk : Disk)
    (bytes : Bytes) (after : Disk) : Prop extends Confined store here bundleId disk after where
  bytes_eq : store.bytes after here bundleId = bytes
  reachable : store.Reachable after here bundleId

lemma place_eq (hfile : store.file? bundleId = .ok path) :
    store.place disk here bundleId = disk.aim here true path := by
  rw [place, hfile]

lemma crossed_eq (hfile : store.file? bundleId = .ok path) :
    store.crossed disk here bundleId = disk.crossed here true path := by
  rw [crossed, hfile]

lemma bytes_of_place {key : Key} (h : store.place disk here bundleId = some key) :
    store.bytes disk here bundleId = disk.bytesAt key := by
  rw [bytes, h]

lemma place_kept (h : Kept (fun _ => False) disk after) (store : Store) (bundleId : Bytes) :
    store.place after here bundleId = store.place disk here bundleId := by
  unfold place
  split
  · exact h.aim_eq fun _ _ => not_false
  · rfl

lemma Reachable.of_kept (h : store.Reachable disk here bundleId)
    (hkept : Kept (fun _ => False) disk after)
    (hsame : ∀ key, store.place disk here bundleId = some key →
      after.bytesAt key = disk.bytesAt key) :
    store.Reachable after here bundleId := by
  intro path key hfile haim hbytes
  rw [hkept.aim_eq fun _ _ => not_false] at haim
  have hold := hsame key (by rw [place_eq hfile, haim])
  exact hkept.leads (fun _ _ => not_false) (h path key hfile haim (hold ▸ hbytes))
    (exists_file_of_bytesAt hbytes)

lemma Reachable.furnished (h : store.Reachable disk here bundleId) (hafter : Furnished disk after) :
    store.Reachable after here bundleId :=
  h.of_kept hafter.kept fun _ _ => (hafter _).bytesAt_eq

/-- **What is found under the path of a spool** are the bytes at its place. -/
theorem content_eq (h : store.Reachable host.disk host.here bundleId) :
    store.content host bundleId = store.bytes host.disk host.here bundleId := by
  rcases hfile : store.file? bundleId with fault | path
  · simp [content, bytes, place, hfile]
  have hplace : store.place host.disk host.here bundleId = host.disk.aim host.here true path :=
    place_eq hfile
  rw [content, hfile]
  dsimp only
  rw [getD_content?]
  unfold foundBytes
  split
  · next place found hresolve =>
    have hthere : host.disk.standingEntry place = some (.file found) := resolve_isOn hresolve
    cases place with
    | detached parent => cases hthere
    | inside key =>
      rw [bytes_of_place (hplace.trans (aim_of_present hresolve)), bytesAt_of_file hthere]
  · next hother =>
    rcases haim : host.disk.aim host.here true path with _ | key
    · rw [bytes, hplace, haim]
    · rw [bytes_of_place (hplace.trans haim)]
      by_contra hne
      have hbytes : host.disk.bytesAt key ≠ [] := Ne.symm hne
      exact hother _ _ ((h path key hfile haim hbytes).resolve_eq (exists_file_of_bytesAt hbytes))

/-! ### Changes of a spool -/

lemma Confined.furnished (hafter : Furnished disk after) :
    store.Confined here bundleId disk after :=
  ⟨fun key _ => hafter key, fun _ => hafter.kept⟩

lemma Confined.refl (store : Store) (here : Standing) (bundleId : Bytes) (disk : Disk) :
    store.Confined here bundleId disk disk :=
  Confined.furnished (Furnished.refl disk)

lemma Confined.trans {between : Disk} (h : store.Confined here bundleId disk between)
    (h' : store.Confined here bundleId between after) :
    store.Confined here bundleId disk after where
  others key hkey := by
    have hkey' : store.place between here bundleId ≠ some key := by
      rwa [place_kept (h.kept _)]
    exact (h.others key hkey).trans (h'.others key hkey')
  kept replaced := (h.kept replaced).trans (h'.kept replaced)

lemma Confined.set {key : Key} (hfile : store.file? bundleId = .ok path)
    (haim : disk.aim here true path = some key) (hwritable : disk.Writable key) (bytes : Bytes) :
    store.Confined here bundleId disk (disk.set key (.file bytes)) := by
  refine ⟨fun other hother => Or.inl ?_, fun _ => hwritable.kept_set bytes⟩
  rw [find?_set disk hwritable.ne_nil, if_neg]
  rintro rfl
  exact hother ((place_eq hfile).trans haim)

lemma Rewritten.same (h : store.Reachable disk here bundleId) :
    store.Rewritten here bundleId disk (store.bytes disk here bundleId) disk :=
  ⟨Confined.refl store here bundleId disk, rfl, h⟩

lemma Rewritten.furnished (h : store.Reachable disk here bundleId) (hafter : Furnished disk after) :
    store.Rewritten here bundleId disk (store.bytes disk here bundleId) after := by
  refine ⟨Confined.furnished hafter, ?_, h.furnished hafter⟩
  unfold bytes
  rw [place_kept hafter.kept]
  split
  · exact (hafter _).bytesAt_eq
  · rfl

lemma Rewritten.trans {between : Disk} {bytes bytes' : Bytes}
    (h : store.Rewritten here bundleId disk bytes between)
    (h' : store.Rewritten here bundleId between bytes' after) :
    store.Rewritten here bundleId disk bytes' after where
  toConfined := h.toConfined.trans h'.toConfined
  bytes_eq := h'.bytes_eq
  reachable := h'.reachable

lemma Rewritten.of_set {key : Key} {bytes : Bytes} (hfile : store.file? bundleId = .ok path)
    (hleads : disk.Leads here true path key) (hwritable : disk.Writable key)
    (hafter : after = disk.set key (.file bytes)) :
    store.Rewritten here bundleId disk bytes after := by
  subst hafter
  have hconfined := Confined.set hfile hleads.aim_eq hwritable bytes
  have hkept := hconfined.kept
  have hself : (disk.set key (.file bytes)).find? key = some (.file bytes) :=
    find?_set_self disk hwritable.ne_nil _
  have hplace : store.place (disk.set key (.file bytes)) here bundleId = some key := by
    rw [place_kept (hkept _), place_eq hfile, hleads.aim_eq]
  refine ⟨hconfined, ?_, ?_⟩
  · rw [bytes_of_place hplace, bytesAt_of_file hself]
  · intro path' key' hfile' haim _
    obtain rfl : path' = path := by
      rw [hfile] at hfile'
      exact (Except.ok.inj hfile').symm
    obtain rfl : key' = key := by
      rw [(hkept _).aim_eq fun _ _ => not_false, hleads.aim_eq] at haim
      exact (Option.some.inj haim).symm
    exact (hkept _).leads (fun _ _ => not_false) hleads hself

lemma rewritten_of_extended {furnished : Disk} {part : Bytes} {key : Key}
    (hfile : store.file? bundleId = .ok path) (reachable : store.Reachable disk here bundleId)
    (hfurnished : Furnished disk furnished) (hextended : Extended furnished here path part after key) :
    store.Rewritten here bundleId disk (store.bytes disk here bundleId ++ part) after := by
  have hplace : store.place disk here bundleId = some key := by
    rw [← place_kept hfurnished.kept, place_eq hfile, hextended.leads.aim_eq]
  have hbytes : store.bytes disk here bundleId = furnished.bytesAt key := by
    rw [bytes_of_place hplace, (hfurnished key).bytesAt_eq]
  rw [hbytes]
  exact (Rewritten.furnished reachable hfurnished).trans
    (Rewritten.of_set hfile hextended.leads hextended.writable hextended.disk_eq)

/-! ### Cutting -/

lemma file_eq (hfile : store.file? bundleId = .ok path) :
    store.file bundleId = Program.done path := by
  rw [file, hfile]
  rfl

lemma file_error {fault : StoreFault} (hfile : store.file? bundleId = .error fault) :
    store.file bundleId = .report fault.problem := by
  rw [file, hfile]
  rfl

lemma runOn_size (hfile : store.file? bundleId = .ok path) (host : Host) :
    (store.size bundleId).runOn host =
      (match host.disk.status host.here path with
        | .error _ => .ok 0
        | .ok ⟨.regular, size⟩ => .ok size
        | .ok ⟨.directory, _⟩ => .error (.reported (StoreFault.noStatus path .isDirectory).problem)
        | .ok ⟨.special, _⟩ => .error (.reported (StoreFault.noStatus path .notSupported).problem),
        host) := by
  rcases hstatus : host.disk.status host.here path with reason | ⟨kind, size⟩
  · simp [Store.size, file_eq hfile, Storage.pathExists, Program.runOn, Program.request, Program.run,
      Host.answer, hstatus, Program.pure_eq]
  · cases kind <;>
      simp [Store.size, file_eq hfile, Storage.pathExists, Storage.fileSize, Program.runOn,
        Program.request, Program.run, Host.answer, hstatus, Program.pure_eq, Program.report]

/-- **The size of a spool** is the number of the bytes that are found under its path. -/
theorem size_eq_length {after : Host} (h : (store.size bundleId).runOn host = (.ok size, after)) :
    (∃ path, store.file? bundleId = .ok path) ∧ size = (store.content host bundleId).length := by
  rcases hfile : store.file? bundleId with fault | path
  · rw [Store.size, file_error hfile] at h
    cases h
  refine ⟨⟨path, rfl⟩, ?_⟩
  rw [runOn_size hfile, Disk.status] at h
  rw [content, hfile]
  dsimp only
  rw [getD_content?]
  rcases hresolve : host.disk.resolve host.here true path with reason | place
  · rw [hresolve] at h
    cases h
    rfl
  rw [hresolve] at h
  cases place with
  | absent key trailing =>
    cases h
    rfl
  | present place entry => cases entry <;> cases h; rfl

lemma file_only {allowed : Request → Prop} (store : Store) (bundleId : Bytes) :
    (store.file bundleId).Only allowed := by
  rcases hfile : store.file? bundleId with fault | path
  · rw [file_error hfile]
    exact .fail _
  · rw [file_eq hfile]
    exact .done _

lemma size_only (store : Store) (bundleId : Bytes) :
    (store.size bundleId).Only Program.Looking := by
  refine (file_only store bundleId).bind fun path => Program.Only.bind ?_ fun exists_ => ?_
  · refine .ask ⟨path, rfl⟩ fun status => ?_
    cases status <;> exact .done _
  · cases exists_
    · exact .done _
    · refine Program.Only.bind ?_ fun size => ?_
      · refine .ask ⟨path, rfl⟩ fun status => ?_
        rcases status with reason | ⟨kind, size⟩
        · exact .done _
        · cases kind <;> exact .done _
      · cases size
        · exact .fail _
        · exact .done _

lemma answer_truncate {key : Key} {content : Bytes}
    (hfound : host.disk.resolve host.here true path = .ok (.present (.inside key) (.file content)))
    (hsize : size ≤ content.length) :
    host.answer (.truncate path size) =
      (none, { host with disk := host.disk.set key (.file (content.take size)) }) := by
  have hfill : size - content.length = 0 := Nat.sub_eq_zero_of_le hsize
  simp [Host.answer, Host.withDisk, Disk.truncate, hfound, hfill]

lemma truncate_eq (hfile : store.file? bundleId = .ok path) (size : Nat) :
    store.truncate bundleId size =
      store.size bundleId >>= fun current => cutFile path current size := by
  rw [truncate, file_eq hfile]
  rfl

/-- A spool without bytes that is not on the disk can be cut to nothing only. -/
lemma runOn_cutFile_missing (hbytes : store.bytes host.disk host.here bundleId = [])
    (reachable : store.Reachable host.disk host.here bundleId) :
    (∃ problem, (cutFile path 0 size).runOn host = (.error (.reported problem), host) ∧
      (problem.category = .io ∨ (store.bytes host.disk host.here bundleId).length < size)) ∨
    ∃ disk, (cutFile path 0 size).runOn host = (.ok path, { host with disk }) ∧
      size ≤ (store.bytes host.disk host.here bundleId).length ∧
      store.Rewritten host.here bundleId host.disk
        ((store.bytes host.disk host.here bundleId).take size) disk := by
  rw [hbytes]
  rcases Nat.eq_zero_or_pos size with rfl | hsize
  · refine Or.inr ⟨host.disk, ?_, Nat.le_refl 0, ?_⟩
    · rw [cutFile, if_pos rfl]
      rfl
    · rw [List.take_nil, ← hbytes]
      exact Rewritten.same reachable
  · refine Or.inl ⟨(StoreFault.tooShort path 0 size).problem, ?_, Or.inr hsize⟩
    rw [cutFile, if_neg (by omega), if_pos hsize]
    rfl

lemma runOn_cutFile {key : Key} {found : Bytes} (hfile : store.file? bundleId = .ok path)
    (hleads : host.disk.Leads host.here true path key)
    (hfound : host.disk.find? key = some (.file found))
    (reachable : store.Reachable host.disk host.here bundleId) :
    (found.length < size ∧ (cutFile path found.length size).runOn host =
      (.error (.reported (StoreFault.tooShort path found.length size).problem), host)) ∨
    ∃ disk, (cutFile path found.length size).runOn host = (.ok path, { host with disk }) ∧
      size ≤ found.length ∧ store.Rewritten host.here bundleId host.disk (found.take size) disk := by
  have hbytes : store.bytes host.disk host.here bundleId = found := by
    rw [bytes_of_place ((place_eq hfile).trans hleads.aim_eq), bytesAt_of_file hfound]
  unfold cutFile
  split
  · next hsize =>
    refine Or.inr ⟨host.disk, rfl, Nat.le_of_eq hsize.symm, ?_⟩
    rw [← hsize, List.take_length, ← hbytes]
    exact Rewritten.same reachable
  split
  · next hshort => exact Or.inl ⟨hshort, rfl⟩
  · next hshort =>
    have hsize : size ≤ found.length := Nat.le_of_not_lt hshort
    refine Or.inr ⟨host.disk.set key (.file (found.take size)), ?_, hsize, ?_⟩
    · rw [Program.runOn_request_bind, answer_truncate (hleads.resolve_eq hfound) hsize]
      rfl
    · exact Rewritten.of_set hfile hleads (Or.inr ⟨found, hfound⟩) rfl

/-- **Cutting a spool** fails and leaves it alone, or leaves its first bytes. It fails because of the
system, or because the spool does not have as many bytes. -/
theorem runOn_truncate (hfile : store.file? bundleId = .ok path)
    (reachable : store.Reachable host.disk host.here bundleId) (size : Nat) :
    (∃ problem, (store.truncate bundleId size).runOn host = (.error (.reported problem), host) ∧
      (problem.category = .io ∨ (store.bytes host.disk host.here bundleId).length < size)) ∨
    ∃ disk, (store.truncate bundleId size).runOn host = (.ok path, { host with disk }) ∧
      size ≤ (store.bytes host.disk host.here bundleId).length ∧
      store.Rewritten host.here bundleId host.disk
        ((store.bytes host.disk host.here bundleId).take size) disk := by
  have hbytes : store.bytes host.disk host.here bundleId =
      foundBytes (host.disk.resolve host.here true path) := by
    rw [← content_eq reachable, content, hfile]
    exact getD_content? _ _ _
  rw [truncate_eq hfile, Program.runOn_bind, runOn_size hfile, Disk.status]
  -- A spool that is not there, or is no regular file, has no bytes.
  rcases hresolve : host.disk.resolve host.here true path with reason | place
  · rw [hresolve] at hbytes
    exact runOn_cutFile_missing hbytes reachable
  cases place with
  | absent key trailing =>
    rw [hresolve] at hbytes
    exact runOn_cutFile_missing hbytes reachable
  | present place entry =>
    cases entry with
    | file found =>
      rw [hresolve] at hbytes
      have hbytes : store.bytes host.disk host.here bundleId = found := hbytes
      rw [hbytes]
      have hthere : host.disk.standingEntry place = some (.file found) := resolve_isOn hresolve
      cases place with
      | detached parent => cases hthere
      | inside key =>
        rcases runOn_cutFile hfile (leads_of_present hresolve) hthere reachable with
          ⟨hshort, hrun⟩ | hdone
        · exact Or.inl ⟨_, hrun, Or.inr hshort⟩
        · exact Or.inr hdone
    | directory => exact Or.inl ⟨_, rfl, Or.inl rfl⟩
    | link target => exact Or.inl ⟨_, rfl, Or.inl rfl⟩
    | fullDevice => exact Or.inl ⟨_, rfl, Or.inl rfl⟩

/-- A file is cut by one request, before which nothing happens and after which nothing is left to do. -/
lemma stops_cutFile {current : Nat} (h : (cutFile path current size).Stops host stopped) :
    stopped = host ∨ stopped = ((cutFile path current size).runOn host).2 := by
  unfold cutFile at h ⊢
  split at h
  · exact Or.inl h.done
  next hdiffers =>
  split at h
  · exact Or.inl h.fail
  next hshort =>
  rw [if_neg hdiffers, if_neg hshort]
  rcases h.request_bind with hsame | htorn | h
  · exact Or.inl hsame
  · cases htorn
  · right
    rw [Program.runOn_request_bind]
    split at h
    · exact h.fail
    · exact h.done

lemma runOn_truncate_invalid {fault : StoreFault} (hfile : store.file? bundleId = .error fault)
    (size : Nat) (host : Host) :
    (store.truncate bundleId size).runOn host = (.error (.reported fault.problem), host) := by
  rw [truncate, Store.size, file_error hfile]
  rfl

lemma truncate_only {fault : StoreFault} (hfile : store.file? bundleId = .error fault) (size : Nat) :
    (store.truncate bundleId size).Only Program.Looking := by
  rw [truncate, file_error hfile]
  exact (size_only store bundleId).bind fun _ => .fail _

lemma stops_truncate_ends (h : (store.truncate bundleId size).Stops host stopped) :
    stopped = host ∨ stopped = ((store.truncate bundleId size).runOn host).2 := by
  rcases hfile : store.file? bundleId with fault | path
  · exact Or.inl ((truncate_only hfile size).stops h)
  rw [truncate_eq hfile] at h ⊢
  rcases h.bind with hsize | ⟨current, between, hrun, hcut⟩
  · exact Or.inl ((size_only store bundleId).stops hsize)
  have hbetween : between = host := by
    have hend := Program.stops_runOn (store.size bundleId) host
    rw [hrun] at hend
    exact (size_only store bundleId).stops hend
  subst hbetween
  rw [Program.runOn_bind, hrun]
  exact stops_cutFile hcut

lemma cutFile_confined {current : Nat} (hfile : store.file? bundleId = .ok path) :
    ((cutFile path current size).runOn host).2 =
        { host with disk := ((cutFile path current size).runOn host).2.disk } ∧
      store.Confined host.here bundleId host.disk ((cutFile path current size).runOn host).2.disk := by
  unfold cutFile
  split
  · exact ⟨rfl, Confined.refl _ _ _ _⟩
  split
  · exact ⟨rfl, Confined.refl _ _ _ _⟩
  rw [Program.runOn_request_bind]
  rcases hcut : host.disk.truncate host.here path size with reason | disk
  · simp only [Host.answer, hcut, Host.withDisk]
    exact ⟨rfl, Confined.refl _ _ _ _⟩
  · obtain ⟨key, found, hresolve, rfl⟩ := truncate_cases hcut
    simp only [Host.answer, hcut, Host.withDisk]
    exact ⟨rfl, Confined.set hfile (aim_of_present hresolve) (Or.inr ⟨found, resolve_isOn hresolve⟩) _⟩

/-- **Cutting a spool touches no other file**, whether the spool is found or not. -/
theorem truncate_confined (h : (store.truncate bundleId size).Stops host stopped) :
    stopped = { host with disk := stopped.disk } ∧ store.Confined host.here bundleId host.disk stopped.disk := by
  rcases stops_truncate_ends h with rfl | rfl
  · exact ⟨rfl, Confined.refl _ _ _ _⟩
  rcases hfile : store.file? bundleId with fault | path
  · rw [(truncate_only hfile size).stops h]
    exact ⟨rfl, Confined.refl _ _ _ _⟩
  · rw [truncate_eq hfile, Program.runOn_bind, runOn_size hfile]
    split
    · next heq =>
      cases (Prod.mk.inj heq).2
      exact cutFile_confined hfile
    · next heq =>
      cases (Prod.mk.inj heq).2
      exact ⟨rfl, Confined.refl _ _ _ _⟩

/-- **While a spool is cut**, it has all its bytes or the first ones. -/
theorem stops_truncate (reachable : store.Reachable host.disk host.here bundleId)
    (h : (store.truncate bundleId size).Stops host stopped) :
    stopped = { host with disk := stopped.disk } ∧
      ∃ bytes, store.Rewritten host.here bundleId host.disk bytes stopped.disk ∧
        (bytes = store.bytes host.disk host.here bundleId ∨
          size ≤ (store.bytes host.disk host.here bundleId).length ∧
            bytes = (store.bytes host.disk host.here bundleId).take size) := by
  have hsame : stopped = host → stopped = { host with disk := stopped.disk } ∧
      ∃ bytes, store.Rewritten host.here bundleId host.disk bytes stopped.disk ∧
        (bytes = store.bytes host.disk host.here bundleId ∨
          size ≤ (store.bytes host.disk host.here bundleId).length ∧
            bytes = (store.bytes host.disk host.here bundleId).take size) := by
    rintro rfl
    exact ⟨rfl, _, Rewritten.same reachable, Or.inl rfl⟩
  rcases stops_truncate_ends h with hhost | hend
  · exact hsame hhost
  rcases hfile : store.file? bundleId with fault | path
  · exact hsame ((truncate_only hfile size).stops h)
  rcases runOn_truncate hfile reachable size with ⟨problem, hrun, -⟩ | ⟨disk, hrun, hsize, hdisk⟩
  · rw [hrun] at hend
    exact hsame hend
  · rw [hrun] at hend
    subst hend
    exact ⟨rfl, _, hdisk, Or.inr ⟨hsize, rfl⟩⟩

/-! ### Extending -/

/-- **Extending a spool** fails because of the system, or puts lines behind its bytes. -/
theorem runOn_append (host : Host) (hfile : store.file? bundleId = .ok path)
    (reachable : store.Reachable host.disk host.here bundleId) (events : List Event) :
    (∃ problem after, (store.append bundleId events).runOn host =
      (.error (.reported problem), after) ∧ problem.category = .io) ∨
    ∃ disk, (store.append bundleId events).runOn host = (.ok path, { host with disk }) ∧
      store.Rewritten host.here bundleId host.disk
        (store.bytes host.disk host.here bundleId ++ lines events) disk := by
  rw [append, file_eq hfile, Program.done_bind]
  split
  · next hempty =>
    rw [List.isEmpty_iff.mp hempty]
    refine Or.inr ⟨host.disk, rfl, ?_⟩
    have hlines : store.bytes host.disk host.here bundleId ++ lines [] =
        store.bytes host.disk host.here bundleId := List.append_nil _
    rw [hlines]
    exact Rewritten.same reachable
  · next hsome =>
    have hdata : lines events ≠ [] := by
      cases events with
      | nil => exact absurd rfl hsome
      | cons event rest => simp [lines, Event.line]
    rcases runOn_appendTo host path hdata with
      ⟨fault, after, hrun⟩ | ⟨furnished, disk, key, hfurnished, hextended, hrun⟩
    · exact Or.inl ⟨_, after, hrun, rfl⟩
    · exact Or.inr ⟨disk, hrun, rewritten_of_extended hfile reachable hfurnished hextended⟩

/-- **Extending a spool touches no other file**, whether the spool is found or not. -/
theorem append_confined (h : (store.append bundleId events).Stops host stopped) :
    stopped = { host with disk := stopped.disk } ∧ store.Confined host.here bundleId host.disk stopped.disk := by
  rcases hfile : store.file? bundleId with fault | path
  · rw [append, file_error hfile] at h
    rw [h.fail]
    exact ⟨rfl, Confined.refl _ _ _ _⟩
  rw [append, file_eq hfile, Program.done_bind] at h
  split at h
  · rw [h.done]
    exact ⟨rfl, Confined.refl _ _ _ _⟩
  · obtain ⟨hhere, furnished, hfurnished, hsame | ⟨key, part, -, hextended⟩⟩ := stops_appendTo h
    · exact ⟨hhere, hsame ▸ Confined.furnished hfurnished⟩
    · refine ⟨hhere, (Confined.furnished hfurnished).trans ?_⟩
      rw [hextended.disk_eq]
      exact Confined.set hfile hextended.leads.aim_eq hextended.writable _

/-- **While a spool is extended**, a beginning of the lines is behind its bytes. -/
theorem stops_append (reachable : store.Reachable host.disk host.here bundleId)
    (h : (store.append bundleId events).Stops host stopped) :
    stopped = { host with disk := stopped.disk } ∧
      ∃ part, part <+: lines events ∧
        store.Rewritten host.here bundleId host.disk
          (store.bytes host.disk host.here bundleId ++ part) stopped.disk := by
  have hsame : stopped = host → stopped = { host with disk := stopped.disk } ∧
      ∃ part, part <+: lines events ∧
        store.Rewritten host.here bundleId host.disk
          (store.bytes host.disk host.here bundleId ++ part) stopped.disk := by
    rintro rfl
    refine ⟨rfl, [], List.nil_prefix, ?_⟩
    rw [List.append_nil]
    exact Rewritten.same reachable
  rcases hfile : store.file? bundleId with fault | path
  · rw [append, file_error hfile] at h
    exact hsame h.fail
  rw [append, file_eq hfile, Program.done_bind] at h
  split at h
  · exact hsame h.done
  · obtain ⟨hhere, furnished, hfurnished, hfurnished' | ⟨key, part, hpart, hextended⟩⟩ :=
      stops_appendTo h
    · refine ⟨hhere, [], List.nil_prefix, ?_⟩
      rw [List.append_nil, hfurnished']
      exact Rewritten.furnished reachable hfurnished
    · exact ⟨hhere, part, hpart, rewritten_of_extended hfile reachable hfurnished hextended⟩

end Chronicle.Spool.Store
