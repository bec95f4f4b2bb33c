import Chronicle.Commit.Journal
import Chronicle.Proofs.Spool.Files
import Mathlib.Data.List.Basic

/-!
The places of the files that a commit works on.

A commit replaces the journal, the checkpoint and the list of unpublished bundles, and cuts and extends
spools. It is given paths, and paths may be links. What is asked of them is that no two lead to the same
place and that none goes over a link which the commit replaces. Then every path keeps its place through the
whole commit, and each step leaves the places of all others alone.
-/

namespace Chronicle.Commit

open Disk Storage

/-! ### Changes of a disk at some places -/

/-- From one host to a later one, entries have changed at some places at most, some of them links that
were replaced. Elsewhere there are only new directories. -/
structure Moves (replaced touched : Key → Prop) (before after : Host) : Prop where
  here_eq : after.here = before.here
  kept : Kept replaced before.disk after.disk
  others : ∀ key, ¬ touched key → Spared before.disk after.disk key

namespace Moves

variable {replaced touched touched' : Key → Prop} {before between after : Host}

lemma refl (replaced touched : Key → Prop) (host : Host) : Moves replaced touched host host :=
  ⟨rfl, Kept.refl _ _, fun _ _ => Spared.refl _ _⟩

lemma trans (h : Moves replaced touched before between) (h' : Moves replaced touched between after) :
    Moves replaced touched before after where
  here_eq := h'.here_eq.trans h.here_eq
  kept := h.kept.trans h'.kept
  others key hkey := (h.others key hkey).trans (h'.others key hkey)

lemma mono (h : Moves replaced touched before after) (htouched : ∀ key, touched key → touched' key) :
    Moves replaced touched' before after :=
  ⟨h.here_eq, h.kept, fun key hkey => h.others key fun hin => hkey (htouched key hin)⟩

end Moves

/-! ### The places of a commit -/

namespace Journal

/-- The paths of the files that a commit replaces. -/
def records (journal : Journal) : List Path :=
  [journal.path, journal.checkpoint, journal.unpublished]

@[simp] lemma path_mem (journal : Journal) : journal.path ∈ journal.records := by simp [records]

@[simp] lemma checkpoint_mem (journal : Journal) : journal.checkpoint ∈ journal.records := by
  simp [records]

@[simp] lemma unpublished_mem (journal : Journal) : journal.unpublished ∈ journal.records := by
  simp [records]

/-- The places of these files. -/
def recordKeys (journal : Journal) (disk : Disk) (here : Standing) : List Key :=
  journal.records.filterMap (disk.aim here false)

end Journal

/-- The places of the spools of some bundles. -/
def spoolKeys (spool : Spool.Store) (bundleIds : List Bytes) (disk : Disk) (here : Standing) :
    List Key :=
  bundleIds.filterMap (spool.place disk here)

/-- The places of all files that a commit works on. -/
def places (journal : Journal) (spool : Spool.Store) (bundleIds : List Bytes) (disk : Disk)
    (here : Standing) : List Key :=
  journal.recordKeys disk here ++ spoolKeys spool bundleIds disk here

/-- The paths are not links to one another: no two of them lead to the same place, and none goes over
a link at a place where a file is going to be replaced. -/
structure Apart (journal : Journal) (spool : Spool.Store) (bundleIds : List Bytes) (disk : Disk)
    (here : Standing) : Prop where
  distinct : (places journal spool bundleIds disk here).Nodup
  records_clear : ∀ path ∈ journal.records, ∀ link ∈ disk.crossed here false path,
    link ∉ journal.recordKeys disk here
  spools_clear : ∀ bundleId ∈ bundleIds, ∀ link ∈ spool.crossed disk here bundleId,
    link ∉ journal.recordKeys disk here

instance (journal : Journal) (spool : Spool.Store) (bundleIds : List Bytes) (disk : Disk)
    (here : Standing) : Decidable (Apart journal spool bundleIds disk here) :=
  decidable_of_iff
    ((places journal spool bundleIds disk here).Nodup ∧
      (∀ path ∈ journal.records, ∀ link ∈ disk.crossed here false path,
        link ∉ journal.recordKeys disk here) ∧
      ∀ bundleId ∈ bundleIds, ∀ link ∈ spool.crossed disk here bundleId,
        link ∉ journal.recordKeys disk here)
    ⟨fun ⟨distinct, records, spools⟩ => ⟨distinct, records, spools⟩,
      fun h => ⟨h.distinct, h.records_clear, h.spools_clear⟩⟩

/-- A temporary name is not in use: no file, link or device has it, no other path of the commit leads to
its place, and it does not go over a link that is going to be replaced. -/
structure Unused (journal : Journal) (spool : Spool.Store) (bundleIds : List Bytes) (disk : Disk)
    (here : Standing) (temporary : Path) : Prop where
  clear : ∀ link ∈ disk.crossed here false temporary, link ∉ journal.recordKeys disk here
  free : ∀ key ∈ disk.aim here false temporary,
    (disk.find? key = none ∨ disk.find? key = some .directory) ∧
      key ∉ places journal spool bundleIds disk here

instance (journal : Journal) (spool : Spool.Store) (bundleIds : List Bytes) (disk : Disk)
    (here : Standing) (temporary : Path) :
    Decidable (Unused journal spool bundleIds disk here temporary) :=
  decidable_of_iff
    ((∀ link ∈ disk.crossed here false temporary, link ∉ journal.recordKeys disk here) ∧
      ∀ key ∈ disk.aim here false temporary,
        (disk.find? key = none ∨ disk.find? key = some .directory) ∧
          key ∉ places journal spool bundleIds disk here)
    ⟨fun ⟨clear, free⟩ => ⟨clear, free⟩, fun h => ⟨h.clear, h.free⟩⟩

/-- The temporary names that a host is going to draw are not in use. -/
def Fresh (journal : Journal) (spool : Spool.Store) (bundleIds : List Bytes) (count : Nat)
    (host : Host) : Prop :=
  ∀ target ∈ journal.records, ∀ ahead < count, Unused journal spool bundleIds host.disk host.here
    (temporaryPath target (Host.lastDigits temporaryDigits (host.drawn + ahead)))

instance (journal : Journal) (spool : Spool.Store) (bundleIds : List Bytes) (count : Nat)
    (host : Host) : Decidable (Fresh journal spool bundleIds count host) :=
  inferInstanceAs (Decidable (∀ target ∈ journal.records, ∀ ahead < count, Unused journal spool
    bundleIds host.disk host.here
    (temporaryPath target (Host.lastDigits temporaryDigits (host.drawn + ahead)))))

variable {journal : Journal} {spool : Spool.Store} {bundleIds : List Bytes} {disk after : Disk}
  {here : Standing} {host : Host} {key : Key}

lemma mem_recordKeys {path : Path} (hpath : path ∈ journal.records)
    (haim : disk.aim here false path = some key) : key ∈ journal.recordKeys disk here :=
  List.mem_filterMap.mpr ⟨path, hpath, haim⟩

lemma mem_spoolKeys {bundleId : Bytes} (hid : bundleId ∈ bundleIds)
    (hplace : spool.place disk here bundleId = some key) :
    key ∈ spoolKeys spool bundleIds disk here :=
  List.mem_filterMap.mpr ⟨bundleId, hid, hplace⟩

lemma record_mem_places (h : key ∈ journal.recordKeys disk here) :
    key ∈ places journal spool bundleIds disk here :=
  List.mem_append_left _ h

lemma spool_mem_places (h : key ∈ spoolKeys spool bundleIds disk here) :
    key ∈ places journal spool bundleIds disk here :=
  List.mem_append_right _ h

namespace Apart

lemma records_ne (h : Apart journal spool bundleIds disk here) :
    journal.records.Pairwise fun path path' =>
      ∀ key, disk.aim here false path = some key → disk.aim here false path' ≠ some key := by
  have hnodup := (List.nodup_append.mp h.distinct).1
  rw [List.Nodup, Journal.recordKeys, List.pairwise_filterMap] at hnodup
  exact hnodup.imp fun hne key haim haim' => hne key haim key haim' rfl

lemma journal_ne (h : Apart journal spool bundleIds disk here)
    (haim : disk.aim here false journal.path = some key) :
    disk.aim here false journal.checkpoint ≠ some key ∧
      disk.aim here false journal.unpublished ≠ some key := by
  have hne := (List.pairwise_cons.mp h.records_ne).1
  exact ⟨hne _ (by simp) key haim, hne _ (by simp) key haim⟩

lemma checkpoint_ne (h : Apart journal spool bundleIds disk here)
    (haim : disk.aim here false journal.checkpoint = some key) :
    disk.aim here false journal.unpublished ≠ some key := by
  have hne := (List.pairwise_cons.mp (List.pairwise_cons.mp h.records_ne).2).1
  exact hne _ (by simp) key haim

lemma spool_not_record (h : Apart journal spool bundleIds disk here)
    (hspool : key ∈ spoolKeys spool bundleIds disk here) : key ∉ journal.recordKeys disk here :=
  fun hrecord => (List.nodup_append.mp h.distinct).2.2 key hrecord key hspool rfl

lemma record_aim (h : Apart journal spool bundleIds disk here)
    (hkept : Kept (· ∈ journal.recordKeys disk here) disk after) {path : Path}
    (hpath : path ∈ journal.records) : after.aim here false path = disk.aim here false path :=
  hkept.aim_eq (h.records_clear path hpath)

lemma recordKeys_eq (h : Apart journal spool bundleIds disk here)
    (hkept : Kept (· ∈ journal.recordKeys disk here) disk after) :
    journal.recordKeys after here = journal.recordKeys disk here :=
  List.filterMap_congr fun _ hpath => h.record_aim hkept hpath

lemma spool_clear (h : Apart journal spool bundleIds disk here) {bundleId : Bytes}
    (hid : bundleId ∈ bundleIds) {path : Path} (hfile : spool.file? bundleId = .ok path) :
    ∀ link ∈ disk.crossed here true path, link ∉ journal.recordKeys disk here := by
  rw [← Spool.Store.crossed_eq hfile]
  exact h.spools_clear bundleId hid

lemma crossed_eq (h : Apart journal spool bundleIds disk here)
    (hkept : Kept (· ∈ journal.recordKeys disk here) disk after) {bundleId : Bytes}
    (hid : bundleId ∈ bundleIds) :
    spool.crossed after here bundleId = spool.crossed disk here bundleId := by
  rcases hfile : spool.file? bundleId with fault | path
  · simp [Spool.Store.crossed, hfile]
  · rw [Spool.Store.crossed_eq hfile, Spool.Store.crossed_eq hfile]
    exact hkept.crossed_eq (h.spool_clear hid hfile)

lemma place_eq (h : Apart journal spool bundleIds disk here)
    (hkept : Kept (· ∈ journal.recordKeys disk here) disk after) {bundleId : Bytes}
    (hid : bundleId ∈ bundleIds) :
    spool.place after here bundleId = spool.place disk here bundleId := by
  rcases hfile : spool.file? bundleId with fault | path
  · simp [Spool.Store.place, hfile]
  · rw [Spool.Store.place_eq hfile, Spool.Store.place_eq hfile]
    exact hkept.aim_eq (h.spool_clear hid hfile)

lemma spoolKeys_eq (h : Apart journal spool bundleIds disk here)
    (hkept : Kept (· ∈ journal.recordKeys disk here) disk after) :
    spoolKeys spool bundleIds after here = spoolKeys spool bundleIds disk here :=
  List.filterMap_congr fun _ hid => h.place_eq hkept hid

lemma places_eq (h : Apart journal spool bundleIds disk here)
    (hkept : Kept (· ∈ journal.recordKeys disk here) disk after) :
    places journal spool bundleIds after here = places journal spool bundleIds disk here := by
  rw [places, h.recordKeys_eq hkept, h.spoolKeys_eq hkept, places]

/-- **The paths stay apart** while the commit works on them. -/
theorem kept (h : Apart journal spool bundleIds disk here)
    (hkept : Kept (· ∈ journal.recordKeys disk here) disk after) :
    Apart journal spool bundleIds after here where
  distinct := by
    rw [h.places_eq hkept]
    exact h.distinct
  records_clear path hpath := by
    rw [h.recordKeys_eq hkept, hkept.crossed_eq (h.records_clear path hpath)]
    exact h.records_clear path hpath
  spools_clear bundleId hid := by
    rw [h.recordKeys_eq hkept, h.crossed_eq hkept hid]
    exact h.spools_clear bundleId hid

lemma record_leads (h : Apart journal spool bundleIds disk here)
    (hkept : Kept (· ∈ journal.recordKeys disk here) disk after) {path : Path}
    (hpath : path ∈ journal.records) (hleads : disk.Leads here false path key) {entry : Entry}
    (hentry : after.find? key = some entry) : after.Leads here false path key :=
  hkept.leads (h.records_clear path hpath) hleads hentry

/-- A spool that is found under its path is found there as long as only its bytes change. -/
lemma reachable (h : Apart journal spool bundleIds disk here)
    (hkept : Kept (· ∈ journal.recordKeys disk here) disk after) {bundleId : Bytes}
    (hid : bundleId ∈ bundleIds) (hreachable : spool.Reachable disk here bundleId)
    (hold : ∀ key, spool.place disk here bundleId = some key →
      after.bytesAt key ≠ [] → disk.bytesAt key ≠ []) :
    spool.Reachable after here bundleId := by
  intro path key hfile haim hbytes
  have hplace : spool.place disk here bundleId = some key := by
    rw [← h.place_eq hkept hid, Spool.Store.place_eq hfile, haim]
  have hold := hold key hplace hbytes
  rw [Spool.Store.place_eq hfile] at hplace
  exact hkept.leads (h.spool_clear hid hfile)
    (hreachable path key hfile hplace hold) (exists_file_of_bytesAt hbytes)

lemma bytes_eq (h : Apart journal spool bundleIds disk here)
    (hkept : Kept (· ∈ journal.recordKeys disk here) disk after) {bundleId : Bytes}
    (hid : bundleId ∈ bundleIds)
    (hsame : ∀ key, spool.place disk here bundleId = some key →
      after.bytesAt key = disk.bytesAt key) :
    spool.bytes after here bundleId = spool.bytes disk here bundleId := by
  unfold Spool.Store.bytes
  rw [h.place_eq hkept hid]
  split
  · next key hplace => exact hsame key hplace
  · rfl

end Apart

/-! ### Hosts on the way -/

variable {touched : Key → Prop} {start : Host}

lemma Apart.moved (h : Apart journal spool bundleIds start.disk start.here)
    (moves : Moves (· ∈ journal.recordKeys start.disk start.here) touched start host) :
    Apart journal spool bundleIds host.disk host.here := by
  rw [moves.here_eq]
  exact h.kept moves.kept

lemma Unused.ready {temporary target : Path} (h : Unused journal spool bundleIds disk here temporary)
    (apart : Apart journal spool bundleIds disk here) (htarget : target ∈ journal.records) :
    Ready disk here temporary target where
  free key haim := (h.free key haim).1
  apart key haim haim' := (h.free key haim).2 (record_mem_places (mem_recordKeys htarget haim'))
  clear link hlink haim :=
    apart.records_clear target htarget link hlink (mem_recordKeys htarget haim)

lemma Unused.moved {temporary : Path}
    (h : Unused journal spool bundleIds start.disk start.here temporary)
    (apart : Apart journal spool bundleIds start.disk start.here)
    (moves : Moves (· ∈ journal.recordKeys start.disk start.here) touched start host)
    (htouched : ∀ key, touched key → key ∈ places journal spool bundleIds start.disk start.here) :
    Unused journal spool bundleIds host.disk host.here temporary := by
  rw [moves.here_eq]
  constructor
  · rw [apart.recordKeys_eq moves.kept, moves.kept.crossed_eq h.clear]
    exact h.clear
  · intro key haim
    rw [moves.kept.aim_eq h.clear] at haim
    rw [apart.places_eq moves.kept]
    obtain ⟨hfree, hother⟩ := h.free key haim
    exact ⟨(moves.others key fun hin => hother (htouched key hin)).free hfree, hother⟩

lemma Fresh.moved {count drawn : Nat} (h : Fresh journal spool bundleIds (drawn + count) start)
    (apart : Apart journal spool bundleIds start.disk start.here)
    (moves : Moves (· ∈ journal.recordKeys start.disk start.here) touched start host)
    (htouched : ∀ key, touched key → key ∈ places journal spool bundleIds start.disk start.here)
    (hdrawn : host.drawn = start.drawn + drawn) : Fresh journal spool bundleIds count host := by
  intro target htarget ahead hahead
  have hunused := h target htarget (drawn + ahead) (by omega)
  rw [hdrawn, Nat.add_assoc]
  exact hunused.moved apart moves htouched

lemma Fresh.readyFor {count : Nat} (h : Fresh journal spool bundleIds (count + 1) host)
    (apart : Apart journal spool bundleIds host.disk host.here) {target : Path}
    (htarget : target ∈ journal.records) : ReadyFor host target :=
  (h target htarget 0 (Nat.succ_pos count)).ready apart htarget

end Chronicle.Commit
