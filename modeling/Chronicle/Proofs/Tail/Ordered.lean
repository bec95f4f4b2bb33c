import Chronicle.Proofs.Disk.Absolute
import Chronicle.Proofs.Disk.Reordered
import Chronicle.Proofs.Spool.Identifiers
import Chronicle.Proofs.Tail.Discovery

/-!
Which logs are found, and in which order.

The logs below a directory are the entries below it that are regular files, or links that lead to one, with a
name that ends as logs do and has something in front of the ending. They are given in the order of their paths,
name by name, so neither the order in which directories list their entries nor the way a walk takes through them
makes a difference.
-/

namespace Chronicle

open Disk

variable {path root : Path} {name : Bytes} {names : Key}

namespace Path

lemma componentsPrecede_eq (a b : List Bytes) : componentsPrecede a b = decide (a < b) := by
  induction a generalizing b with
  | nil => cases b <;> simp [componentsPrecede]
  | cons x xs ih =>
    cases b with
    | nil => simp [componentsPrecede]
    | cons y ys => simp [componentsPrecede, ih, Bytes.precedes, List.cons_lt_cons_iff, beq_eq_decide]

lemma sorted_strictly {paths : List Path} {absolute : Bool}
    (h : ∀ path ∈ paths, path.isAbsolute = absolute) (hdistinct : (paths.map components).Nodup) :
    (sorted paths).Pairwise fun a b => a.components < b.components := by
  have hsorted : sorted paths = sortBy (fun a b => decide (a.components < b.components)) paths := by
    refine sortBy_congr fun a ha b hb => ?_
    rw [precedes, h a ha, h b hb, beq_self_eq_true, if_pos rfl, componentsPrecede_eq]
  rw [hsorted]
  exact sortBy_strictly components hdistinct

/-! ### Paths of what is below a directory -/

lemma names_below (hnames : Spelled names) (root : Path) :
    (names.foldl join root).isAbsolute = root.isAbsolute ∧
      (names.foldl join root).names = root.names ++ names := by
  induction names generalizing root with
  | nil => exact ⟨rfl, (List.append_nil _).symm⟩
  | cons name rest ih =>
    have hname : IsName name := hnames name (List.mem_cons_self ..)
    obtain ⟨habsolute, hfirst⟩ := names_front hname.ne_nil hname.no_slash root
    rw [← join_front hname.no_slash] at habsolute hfirst
    obtain ⟨hrest, hbehind⟩ := ih (fun other hmem => hnames other (List.mem_cons_of_mem _ hmem)) (root.join name)
    rw [List.foldl_cons, hrest, hbehind, habsolute, hfirst, List.append_assoc, List.singleton_append]
    exact ⟨rfl, rfl⟩

lemma components_below (hnames : Spelled names) (hne : names ≠ []) (root : Path) :
    (names.foldl join root).components =
      (if root.isAbsolute then [[Bytes.slash]] else []) ++ root.names ++ names := by
  obtain ⟨habsolute, hall⟩ := names_below hnames root
  have hlast : (names.foldl join root).text.getLast? ≠ some Bytes.slash := by
    obtain ⟨front, last, rfl⟩ := List.eq_nil_or_concat names |>.resolve_left hne
    rw [List.concat_eq_append] at hnames ⊢
    rw [List.foldl_append]
    exact ((spelled_concat.mp hnames).2.unended_join _).no_slash
  rw [components_of_last hlast, habsolute, hall, List.append_assoc]

lemma fileName_below {last : Bytes} (hnames : Spelled names) (hlast : names.getLast? = some last) (root : Path) :
    (names.foldl join root).fileName = last := by
  obtain ⟨front, rfl⟩ := List.getLast?_eq_some_iff.mp hlast
  rw [List.foldl_append]
  exact (spelled_concat.mp hnames).2.fileName_join _

/-! ### Endings of names -/

variable {stem ending : Bytes}

/-- What stands behind the last dot is the extension, if something stands in front of the dot. -/
lemma extension_of_split (hdot : Bytes.dot ∉ ending) (hname : path.fileName = stem ++ Bytes.dot :: ending) :
    path.extension =
      if stem ≠ [] ∧ path.fileName ≠ [Bytes.dot, Bytes.dot] then Bytes.dot :: ending else [] := by
  have hwhile : (path.fileName.reverse.takeWhile (· != Bytes.dot)).reverse = ending := by
    have hends : ∀ b ∈ ending.reverse, (b != Bytes.dot) = true := by
      intro b hb
      have hne : b ≠ Bytes.dot := fun heq => hdot (heq ▸ List.mem_reverse.mp hb)
      simpa using hne
    rw [hname, List.reverse_append, List.reverse_cons, List.append_assoc, List.takeWhile_append_of_pos hends]
    simp
  have hlength : ending.length + 1 < path.fileName.length ↔ stem ≠ [] := by
    rw [hname, List.length_append, List.length_cons, ← List.length_pos_iff]
    omega
  unfold extension
  dsimp only
  rw [hwhile]
  simp [hlength]

/-- A name has an extension if it ends in it and is longer. -/
lemma extension_eq_iff (hdot : Bytes.dot ∉ ending) (hne : ending ≠ []) :
    path.extension = Bytes.dot :: ending ↔ ∃ stem, stem ≠ [] ∧ path.fileName = stem ++ Bytes.dot :: ending := by
  constructor
  · intro h
    have hmem : Bytes.dot ∈ path.fileName.reverse := by
      by_contra hnone
      have hall : ∀ b ∈ path.fileName.reverse, (b != Bytes.dot) = true := by
        intro b hb
        have hne : b ≠ Bytes.dot := fun heq => hnone (heq ▸ hb)
        simpa using hne
      -- Without a dot the name is all there is behind the last dot.
      have hwhole : (path.fileName.reverse ++ []).takeWhile (· != Bytes.dot) = path.fileName.reverse ++ [] :=
        List.takeWhile_append_of_pos hall
      rw [List.append_nil] at hwhole
      have hlong : ¬ path.fileName.length + 1 < path.fileName.length := by omega
      simp [extension, hwhole, hlong] at h
    obtain ⟨behind, front, hsplit, hbehind⟩ := List.eq_append_cons_of_mem hmem
    have hname : path.fileName = front.reverse ++ Bytes.dot :: behind.reverse := by
      rw [← List.reverse_reverse path.fileName, hsplit]
      simp
    rw [extension_of_split (by simpa using hbehind) hname] at h
    split at h
    · next hstem =>
      rw [List.cons.injEq] at h
      exact ⟨front.reverse, hstem.1, by rw [hname, h.2]⟩
    · cases h
  · rintro ⟨stem, hstem, hname⟩
    have hlong : path.fileName ≠ [Bytes.dot, Bytes.dot] := by
      intro hup
      have hlength := congrArg List.length (hname.symm.trans hup)
      have hstemLength := List.length_pos_iff.mpr hstem
      have hendingLength := List.length_pos_iff.mpr hne
      rw [List.length_append, List.length_cons, List.length_cons, List.length_singleton] at hlength
      omega
    rw [extension_of_split hdot hname, if_pos ⟨hstem, hlong⟩]

end Path

/-! ### Logs below a directory -/

lemma Disk.found_regular (disk : Disk) (here : Standing) (path : Path) (entry : Entry) :
    (disk.found here path entry).regular = true ↔
      (∃ content, entry = .file content) ∨
        ∃ target size, entry = .link target ∧ disk.status here path = .ok ⟨.regular, size⟩ := by
  cases entry with
  | file content => simp [found]
  | link target =>
    rcases hstatus : disk.status here path with reason | ⟨kind, size⟩ <;> simp [found, hstatus]
  | directory => simp [found]
  | fullDevice => simp [found]

/-- A path by which a log is below a directory: the names from the directory to the entry stand behind the path of
the directory, the entry is a regular file or a link by which the path leads to one, and the last name ends as logs
do, with something in front of the ending. -/
structure Host.LogBelow (host : Host) (root path : Path) (base names : Key) (stem : Bytes) (entry : Entry) :
    Prop where
  directory : host.disk.resolve host.here true root = .ok (.present (.inside base) .directory)
  there : host.disk.find? (base ++ names) = some entry
  name : names.getLast? = some (stem ++ utf8 ".jsonl")
  stem_ne_nil : stem ≠ []
  path_eq : path = names.foldl Path.join root
  regular : (∃ content, entry = .file content) ∨
    ∃ target size, entry = .link target ∧ host.disk.status host.here path = .ok ⟨.regular, size⟩

namespace Tail

variable {host : Host} {base : Key}

lemma exists_names (named : host.disk.Named) {entry : Key × Entry} (hbelow : entry ∈ host.disk.below base) :
    ∃ names, entry.1 = base ++ names ∧ names ≠ [] ∧ Spelled names ∧
      host.disk.find? (base ++ names) = some entry.2 ∧
      ∀ root, pathBelow root base entry = names.foldl Path.join root := by
  obtain ⟨hmem, ⟨names, heq⟩, hlength⟩ := mem_below.mp hbelow
  have hne : names ≠ [] := by
    rintro rfl
    rw [← heq, List.append_nil] at hlength
    exact Nat.lt_irrefl _ hlength
  have hfind : host.disk.find? (base ++ names) = some entry.2 := heq ▸ named.find?_of_mem hmem
  refine ⟨names, heq.symm, hne, fun name hname => ?_, hfind, fun root => ?_⟩
  · exact named.spelled hfind name (List.mem_append_right _ hname)
  · rw [pathBelow, ← heq, List.drop_left]

lemma isLog_foundBelow {entry : Key × Entry} {last : Bytes} (hnames : Spelled names)
    (hlast : names.getLast? = some last) (hpath : pathBelow root base entry = names.foldl Path.join root) :
    isLog (host.disk.foundBelow host.here root base entry) = true ↔
      (host.disk.found host.here (pathBelow root base entry) entry.2).regular = true ∧
        ∃ stem, stem ≠ [] ∧ last = stem ++ utf8 ".jsonl" := by
  have hextension : logExtension = Bytes.dot :: utf8 "jsonl" := rfl
  have hending : utf8 ".jsonl" = Bytes.dot :: utf8 "jsonl" := rfl
  have hname : (pathBelow root base entry).fileName = last := by
    rw [hpath, Path.fileName_below hnames hlast]
  rw [isLog, foundBelow, Bool.and_eq_true, beq_iff_eq, found_path, hextension,
    Path.extension_eq_iff (by decide) (by decide), hname, hending]

/-- The logs below a directory are the entries that are logs. -/
lemma mem_logsBelow_iff (named : host.disk.Named) (hopening : host.limits.opening = true) :
    path ∈ (host.logsBelow root).map (·.path) ↔
      ∃ base names stem entry, host.LogBelow root path base names stem entry := by
  unfold Host.logsBelow
  constructor
  · intro h
    split at h
    · next base hdirectory =>
      rw [if_pos hopening, Host.logsUnder, List.map_map] at h
      obtain ⟨entry, hentry, rfl⟩ := List.mem_map.mp h
      obtain ⟨hbelow, hlog⟩ := List.mem_filter.mp hentry
      -- Names are names, so what was found under a path is told by the last of them.
      obtain ⟨names, -, hne, hnames, hfind, hpath⟩ := exists_names named hbelow
      obtain ⟨last, hlast⟩ : ∃ last, names.getLast? = some last :=
        Option.isSome_iff_exists.mp (by simpa using hne)
      rw [isLog_foundBelow hnames hlast (hpath root)] at hlog
      obtain ⟨hregular, stem, hstem, rfl⟩ := hlog
      exact ⟨base, names, stem, entry.2, hdirectory, hfind, hlast, hstem, hpath root,
        (found_regular _ _ _ _).mp hregular⟩
    · cases h
  · rintro ⟨base, names, stem, entry, hlog⟩
    have hne : names ≠ [] := by
      rintro rfl
      cases hlog.name
    have hmem : (base ++ names, entry) ∈ host.disk.entries := mem_of_find? hlog.there (by simp [hne])
    have hbelow : (base ++ names, entry) ∈ host.disk.below base :=
      mem_below.mpr ⟨hmem, List.prefix_append _ _, by simpa using List.length_pos_iff.mpr hne⟩
    have hnames : Spelled names := fun name hname =>
      named.spelled hlog.there name (List.mem_append_right _ hname)
    have hpath : pathBelow root base (base ++ names, entry) = path := by
      rw [pathBelow, List.drop_left, hlog.path_eq]
    have hfound : isLog (host.disk.foundBelow host.here root base (base ++ names, entry)) = true := by
      rw [isLog_foundBelow hnames hlog.name (hpath.trans hlog.path_eq), hpath]
      exact ⟨(found_regular _ _ _ _).mpr hlog.regular, stem, hlog.stem_ne_nil, rfl⟩
    rw [hlog.directory]
    dsimp only
    rw [if_pos hopening, Host.logsUnder, List.map_map]
    exact List.mem_map.mpr ⟨_, List.mem_filter.mpr ⟨hbelow, hfound⟩, hpath⟩

lemma logsBelow_components_nodup (named : host.disk.Named) (root : Path) :
    (((host.logsBelow root).map (·.path)).map Path.components).Nodup := by
  unfold Host.logsBelow
  split
  · next base _ =>
    split
    · rw [Host.logsUnder, List.map_map, List.map_map]
      refine List.Nodup.map_on (fun entry hentry other hother heq => ?_)
        ((named.entries_nodup.filter _).filter _)
      obtain ⟨names, hkey, hne, hnames, hfind, hpath⟩ := exists_names named (List.mem_filter.mp hentry).1
      obtain ⟨names', hkey', hne', hnames', hfind', hpath'⟩ := exists_names named (List.mem_filter.mp hother).1
      simp only [Function.comp_apply, hpath root, hpath' root] at heq
      rw [Path.components_below hnames hne, Path.components_below hnames' hne'] at heq
      obtain rfl := List.append_cancel_left heq
      rw [hfind, Option.some.injEq] at hfind'
      exact Prod.ext (hkey.trans hkey'.symm) hfind'
    · exact List.nodup_nil
  · exact List.nodup_nil

lemma isAbsolute_of_logsBelow (named : host.disk.Named) (hmem : path ∈ (host.logsBelow root).map (·.path)) :
    path.isAbsolute = root.isAbsolute := by
  unfold Host.logsBelow at hmem
  split at hmem
  · split at hmem
    · rw [Host.logsUnder, List.map_map] at hmem
      obtain ⟨entry, hentry, rfl⟩ := List.mem_map.mp hmem
      obtain ⟨names, -, -, hnames, -, hpath⟩ := exists_names named (List.mem_filter.mp hentry).1
      rw [Function.comp_apply, hpath root]
      exact (Path.names_below hnames root).1
    · cases hmem
  · cases hmem

lemma sorted_of_findLogs {logs : List Path} (h : ((findLogs root).runOn host).1 = .ok logs) :
    ∃ found, logs = Path.sorted found := by
  rcases runOn_isDirectory root host with ⟨hrun, -⟩ | ⟨place, -, hrun⟩
  · rw [findLogs, Program.runOn_bind, hrun] at h
    exact ⟨[], (Except.ok.inj h).symm⟩
  rw [findLogs, Program.runOn_bind, hrun] at h
  dsimp only at h
  rw [if_pos rfl, Program.runOn_request_bind] at h
  rcases hwalk : (host.answer (.walk root)).1 with reason | found
  · rw [hwalk] at h
    exact ⟨[], (Except.ok.inj h).symm⟩
  · rw [hwalk] at h
    exact ⟨_, (Except.ok.inj h).symm⟩

lemma findLogs_ascending (named : host.disk.Named) (root : Path) :
    ∃ logs, ((findLogs root).runOn host).1 = .ok logs ∧ logs.Perm ((host.logsBelow root).map (·.path)) ∧
      logs.Pairwise fun a b => a.components < b.components := by
  obtain ⟨sightings, hperm, hrun⟩ := runOn_findLogs named.toWellFormed root
  refine ⟨_, hrun, hperm.map _, ?_⟩
  obtain ⟨found, hsorted⟩ := sorted_of_findLogs hrun
  have hfound : found.Perm ((host.logsBelow root).map (·.path)) := by
    have hpaths := hperm.map (·.path)
    rw [hsorted] at hpaths
    exact (sortBy_perm _ _).symm.trans hpaths
  rw [hsorted]
  exact Path.sorted_strictly (fun path hmem => isAbsolute_of_logsBelow named (hfound.mem_iff.mp hmem))
    ((hfound.map _).nodup_iff.mpr (logsBelow_components_nodup named root))

/-- The order in which directories list their entries decides nothing about the logs below a directory. -/
lemma logsBelow_perm {disk : Disk} (h : host.disk.Reordered disk) (hdisk : host.disk.WellFormed) (root : Path) :
    (Host.logsBelow { host with disk := disk } root).Perm (host.logsBelow root) := by
  unfold Host.logsBelow
  dsimp only
  rw [h.resolve_eq]
  split
  · next base _ =>
    split
    · have hsame : ∀ entry, disk.foundBelow host.here root base entry =
          host.disk.foundBelow host.here root base entry := fun entry => h.found_eq _ _ _
      simp only [Host.logsUnder, hsame]
      exact ((h.below_perm hdisk base).filter _).map _
    · exact .refl _
  · exact .refl _

/-- **Finding logs is exact and does not depend on any order.** On a disk where names are names and directories
can be opened, the paths that are found below a directory are those of the entries below it that are logs, each of
them once and in ascending order name by name; they are the same in whatever order the directories list their
entries. Below what is no directory there are none. -/
theorem findLogs_exact (named : host.disk.Named) (hopening : host.limits.opening = true) (root : Path) :
    ∃ logs : List Path,
      (∀ disk, host.disk.Reordered disk → ((findLogs root).runOn { host with disk := disk }).1 = .ok logs) ∧
      logs.Pairwise (fun a b => a.components < b.components) ∧
      (∀ path, path ∈ logs ↔ ∃ base names stem entry, host.LogBelow root path base names stem entry) ∧
      ((∀ place, host.disk.resolve host.here true root ≠ .ok (.present place .directory)) → logs = []) := by
  obtain ⟨logs, -, hperm, hascending⟩ := findLogs_ascending named root
  have hlogs : ∀ path, path ∈ logs ↔ ∃ base names stem entry, host.LogBelow root path base names stem entry :=
    fun path => hperm.mem_iff.trans (mem_logsBelow_iff named hopening)
  refine ⟨logs, fun disk hdisk => ?_, hascending, hlogs, fun hnone => ?_⟩
  · have named' : ({ host with disk := disk } : Host).disk.Named := ⟨hdisk.tree, fun entry hmem =>
      named.names entry (((reordered_iff_perm named.toWellFormed).mp hdisk).mem_iff.mp hmem)⟩
    obtain ⟨logs', hrun, hperm', hascending'⟩ := findLogs_ascending named' root
    rw [hrun]
    -- Both lists have the same paths in strictly ascending order.
    have hsame := (hperm'.trans ((logsBelow_perm hdisk named.toWellFormed root).map _)).trans hperm.symm
    exact congrArg Except.ok (eq_of_perm_of_strictly hsame hascending' hascending)
  · rw [List.eq_nil_iff_forall_not_mem]
    intro path hmem
    obtain ⟨base, names, stem, entry, hlog⟩ := (hlogs path).mp hmem
    exact hnone _ hlog.directory

/-- A directory with a log, one with the name of a log, a link to a log, and a file that has no name before its
ending; the directory that holds a log is listed last. -/
def mixedHost : Host where
  disk := ⟨[([utf8 "r"], .directory), ([utf8 "r", utf8 "l.jsonl"], .link (utf8 "a.jsonl")),
    ([utf8 "r", utf8 "d.jsonl"], .directory), ([utf8 "r", utf8 "a.jsonl"], .file []),
    ([utf8 "r", utf8 ".jsonl"], .file []), ([utf8 "r", utf8 "a"], .directory),
    ([utf8 "r", utf8 "a", utf8 "x.jsonl"], .file [])]⟩

lemma mixedHost_named : mixedHost.disk.Named where
  keys_nodup := by decide
  key_ne_nil := by decide
  parent_directory := by decide +kernel
  names := by
    have hname : ∀ name ∈ ["r", "l.jsonl", "d.jsonl", "a.jsonl", ".jsonl", "a", "x.jsonl"].map utf8,
        IsEntryName name := by
      have hall : ∀ name ∈ ["r", "l.jsonl", "d.jsonl", "a.jsonl", ".jsonl", "a", "x.jsonl"].map utf8,
          name ≠ [] ∧ name ≠ [Bytes.dot] ∧ name ≠ [Bytes.dot, Bytes.dot] ∧ Bytes.slash ∉ name ∧
            (0 : UInt8) ∉ name ∧ name.length ≤ longestName := by decide +kernel
      intro name hmem
      obtain ⟨hnil, hdot, hup, hslash, hnull, hshort⟩ := hall name hmem
      exact ⟨⟨hnil, hdot, hup, hslash, hnull⟩, hshort⟩
    have hnames : ∀ entry ∈ mixedHost.disk.entries, ∀ name ∈ entry.1,
        name ∈ ["r", "l.jsonl", "d.jsonl", "a.jsonl", ".jsonl", "a", "x.jsonl"].map utf8 := by decide +kernel
    exact fun entry hentry name hmem => hname name (hnames entry hentry name hmem)

/-- The log in the directory comes first, since its second name is shorter. -/
theorem findLogs_exact_mixed :
    mixedHost.disk.Named ∧ mixedHost.limits.opening = true ∧
      ∀ disk, mixedHost.disk.Reordered disk →
        ((findLogs (.ofString "/r")).runOn { mixedHost with disk := disk }).1 =
          .ok [.ofString "/r/a/x.jsonl", .ofString "/r/a.jsonl", .ofString "/r/l.jsonl"] := by
  obtain ⟨logs, hrun, -⟩ := findLogs_exact mixedHost_named rfl (.ofString "/r")
  have hlogs : ((findLogs (.ofString "/r")).runOn mixedHost).1 =
      .ok [.ofString "/r/a/x.jsonl", .ofString "/r/a.jsonl", .ofString "/r/l.jsonl"] := by decide +kernel
  have hsame : logs = [.ofString "/r/a/x.jsonl", .ofString "/r/a.jsonl", .ofString "/r/l.jsonl"] :=
    Except.ok.inj
      ((hrun mixedHost.disk ((reordered_iff_perm mixedHost_named.toWellFormed).mpr (.refl _))).symm.trans hlogs)
  exact ⟨mixedHost_named, rfl, fun disk hdisk => (hrun disk hdisk).trans (congrArg Except.ok hsame)⟩

end Tail

end Chronicle
