import Chronicle.Proofs.Json.Reread
import Chronicle.Proofs.Storage.Unreadable
import Chronicle.Proofs.Storage.Writing
import Chronicle.Tail.Checkpoint

/-!
Checkpoints that are loaded again.

The text of a checkpoint is read back as the document that it was printed from, and its members are taken over
one by one. Since they ascend, each of them goes to the front of those behind it, and the table is what it
was.
-/

namespace Chronicle.Tail

open Storage

variable {offsets : Offsets} {host : Host} {path : Path}

/-- Every offset is a number of 64 bits, as the size of a file is. -/
def Measured (offsets : Offsets) : Prop := ∀ entry ∈ offsets.entries, entry.2 < UInt64.size

lemma natural?_nat {n : Nat} (h : n < UInt64.size) : (Json.nat n).natural? = some n := if_pos h

lemma readOffsets_numbered (ascending : offsets.Ascending) (measured : Measured offsets) :
    readOffsets (Json.numbered offsets.entries) = Program.done offsets := by
  obtain ⟨entries⟩ := offsets
  induction entries with
  | nil => rfl
  | cons entry rest ih =>
    obtain ⟨path, offset⟩ := entry
    obtain ⟨hfirst, hrest⟩ := List.pairwise_cons.mp ascending
    obtain ⟨hoffset, hoffsets⟩ := List.forall_mem_cons.mp measured
    change readOffsets ((path, .nat offset) :: Json.numbered rest) = _
    rw [readOffsets, natural?_nat hoffset]
    dsimp only
    rw [ih hrest hoffsets, Program.done_bind, Table.insert, Table.insertEntry_of_least hfirst]
    rfl

lemma read_of_content? {disk : Disk} {here : Disk.Standing} {limits : Disk.Limits} {content : Bytes}
    (hopening : limits.opening = true) (h : disk.content? here path = some content) :
    disk.read here limits path = .content content := by
  have hsame : disk.read here limits path = disk.read here {} path := by
    unfold Disk.read
    rw [hopening]
  unfold Disk.content? at h
  rw [hsame]
  split at h
  · next hread => rw [hread, Option.some.inj h]
  · cases h

/-- **The text of a checkpoint is loaded as the table that it was printed from.** -/
theorem loadOffsets_offsetsText (ascending : offsets.Ascending) (printable : Printable offsets)
    (measured : Measured offsets) (opening : host.limits.opening = true)
    (hcontent : host.disk.content? host.here path = some (offsetsText offsets)) :
    (loadOffsets path).runOn host = (.ok offsets, host) := by
  have hread := read_of_content? opening hcontent
  have hdocument : Json.read? (offsetsText offsets) = some (.object (Json.numbered offsets.entries)) :=
    Json.read?_indented ascending printable measured
  rw [loadOffsets, Program.runOn_bind, runOn_pathExists]
  rcases hstatus : host.disk.status host.here path with reason | status
  · rw [read_of_status hstatus] at hread
    cases hread
  dsimp only
  rw [if_pos rfl, Program.runOn_bind, Program.runOn, Program.run_attempt, ← Program.runOn, runOn_contentOf, hread]
  dsimp only
  rw [hdocument]
  exact congrArg (fun program => program.runOn host) (readOffsets_numbered ascending measured)

/-- **A checkpoint that was saved is loaded as it was**: where it could be saved, its paths could be printed. -/
theorem loadOffsets_after_saveOffsets (ascending : offsets.Ascending) (measured : Measured offsets)
    (ready : ReadyFor host path) (opening : host.limits.opening = true) {saved : Path} {after : Host}
    (hsave : (saveOffsets path offsets).runOn host = (.ok saved, after)) :
    (loadOffsets path).runOn after = (.ok offsets, after) := by
  by_cases printable : Printable offsets
  · rw [saveOffsets_of_printable printable] at hsave
    rcases runOn_writeAtomically ready (offsetsText offsets) with
      ⟨fault, disk, drawn, -, hfail⟩ | ⟨furnished, disk, key, -, hplaced, hdone⟩
    · rw [hfail] at hsave
      cases hsave
    · rw [hdone] at hsave
      cases hsave
      have hfile : disk.find? key = some (.file (offsetsText offsets)) := by rw [hplaced.find?_eq, if_pos rfl]
      exact loadOffsets_offsetsText ascending printable measured opening
        (Disk.Has.content?_eq ⟨key, hplaced.leads, hfile⟩)
  · rw [saveOffsets_of_not_printable printable] at hsave
    cases hsave

end Chronicle.Tail
