import Chronicle.Proofs.Disk.Contents
import Chronicle.Proofs.Disk.Tree
import Chronicle.Proofs.Disk.Walk

/-!
The order in which directories list their entries.

Two trees with the same entries lead every path to the same place and say the same about what is there. Only what a
directory lists comes in another order.
-/

namespace Chronicle.Disk

variable {disk disk' : Disk} {here : Standing} {path : Path} {key : Key}

/-- The second disk is a tree with the entries of the first one, whatever their order. -/
structure Reordered (disk disk' : Disk) : Prop where
  tree : disk'.WellFormed
  find?_eq : ∀ key, disk'.find? key = disk.find? key

theorem reordered_iff_perm (hdisk : disk.WellFormed) :
    disk.Reordered disk' ↔ disk'.entries.Perm disk.entries := by
  constructor
  · intro h
    refine (List.perm_ext_iff_of_nodup h.tree.entries_nodup hdisk.entries_nodup).mpr fun entry => ⟨?_, ?_⟩
    · intro hmem
      refine mem_of_find? ?_ (h.tree.key_ne_nil entry hmem)
      rw [← h.find?_eq]
      exact h.tree.find?_of_mem hmem
    · intro hmem
      refine mem_of_find? ?_ (hdisk.key_ne_nil entry hmem)
      rw [h.find?_eq]
      exact hdisk.find?_of_mem hmem
  · intro h
    have hnodup : (disk'.entries.map (·.1)).Nodup := (h.map _).nodup_iff.mpr hdisk.keys_nodup
    have hfind : ∀ key, disk'.find? key = disk.find? key := by
      intro key
      by_cases hkey : key = []
      · rw [hkey, find?_nil, find?_nil]
      rcases hold : disk.find? key with _ | entry
      · rcases hnew : disk'.find? key with _ | entry
        · rfl
        · rw [hdisk.find?_of_mem (h.mem_iff.mp (mem_of_find? hnew hkey))] at hold
          cases hold
      · rw [find?, if_neg hkey]
        exact findEntry_of_mem hnodup (h.mem_iff.mpr (mem_of_find? hold hkey))
    refine ⟨⟨hnodup, fun entry hmem => hdisk.key_ne_nil entry (h.mem_iff.mp hmem), fun entry hmem => ?_⟩, hfind⟩
    rw [hfind]
    exact hdisk.parent_directory entry (h.mem_iff.mp hmem)

namespace Reordered

/-- **A path leads to the same place** in whatever order entries are listed. -/
theorem resolve_eq (h : disk.Reordered disk') (here : Standing) (follow : Bool) (path : Path) :
    disk'.resolve here follow path = disk.resolve here follow path := by
  have hentry : ∀ entry, mapEntry id entry = entry := fun entry => by cases entry <;> rfl
  have hplace : ∀ place, mapPlace (fun _ => id) place = place := by
    intro place
    rcases place with ⟨key | parent, entry⟩ | ⟨key, trailing⟩
    · rw [mapPlace, hentry]
    · rfl
    · rfl
  have hsame : Rewritten (fun _ => id) disk disk' := by
    intro key
    rw [h.find?_eq key]
    rcases disk.find? key with _ | entry
    · rfl
    · rw [Option.map_some, hentry]
  rw [hsame.resolve here follow path]
  rcases disk.resolve here follow path with reason | place
  · rfl
  · rw [Except.map, hplace]

lemma status_eq (h : disk.Reordered disk') (here : Standing) (path : Path) :
    disk'.status here path = disk.status here path := by
  rw [status, status, h.resolve_eq]

lemma found_eq (h : disk.Reordered disk') (here : Standing) (path : Path) (entry : Entry) :
    disk'.found here path entry = disk.found here path entry := by
  cases entry with
  | link target => rw [found, found, h.status_eq]
  | _ => rfl

lemma below_perm (h : disk.Reordered disk') (hdisk : disk.WellFormed) (key : Key) :
    (disk'.below key).Perm (disk.below key) :=
  ((reordered_iff_perm hdisk).mp h).filter _

end Reordered

end Chronicle.Disk
