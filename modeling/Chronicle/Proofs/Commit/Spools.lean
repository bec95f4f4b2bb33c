import Chronicle.Proofs.Commit.Steps

/-!
The spools of a commit, one after the other.

Each spool is cut back to its base size and extended by the lines of its events. The spools are at different
places, so what is done to one leaves the bytes of the others alone; and if the work is cut off, some spools
are done, at most one has a part of its lines, and the others are as before.
-/

namespace Chronicle.Commit

open Disk Storage

/-- What a commit makes of the bytes of a spool. -/
def Append.Done (append : Append) (old new : Bytes) : Prop :=
  append.baseSize ≤ old.length ∧ new = old.take append.baseSize ++ Spool.lines append.events

/-- What a commit that is cut off can leave of the bytes of a spool. -/
def Append.CutOff (append : Append) (old new : Bytes) : Prop :=
  new = old ∨ append.baseSize ≤ old.length ∧
    ∃ part, part <+: Spool.lines append.events ∧ new = old.take append.baseSize ++ part

lemma Append.CutOff.done {append : Append} {old between new : Bytes} (h : append.CutOff old between)
    (hdone : append.Done between new) : append.Done old new := by
  rcases h with rfl | ⟨hsize, part, -, rfl⟩
  · exact hdone
  · refine ⟨hsize, ?_⟩
    have hcut : (old.take append.baseSize ++ part).take append.baseSize =
        old.take append.baseSize := by
      rw [List.take_append_of_le_length (by simp [hsize]), List.take_take, Nat.min_self]
    rw [hdone.2, hcut]

lemma Append.CutOff.size_le {append : Append} {old new : Bytes} (h : append.CutOff old new)
    (hsize : append.baseSize ≤ old.length) : append.baseSize ≤ new.length := by
  rcases h with rfl | ⟨-, part, -, rfl⟩
  · exact hsize
  · rw [List.length_append, List.length_take]
    omega

lemma Append.Done.cutOff {append : Append} {old new : Bytes} (h : append.Done old new) :
    append.CutOff old new :=
  Or.inr ⟨h.1, _, List.prefix_refl _, h.2⟩

/-- The bytes of spools have changed in a certain way. Nothing else has, but for new directories. -/
structure SpoolsChanged (spool : Spool.Store) (appends : List Append)
    (change : Append → Bytes → Bytes → Prop) (before after : Host) : Prop where
  here_eq : after.here = before.here
  kept : ∀ replaced, Kept replaced before.disk after.disk
  others : ∀ key, key ∉ spoolKeys spool (appends.map (·.bundleId)) before.disk before.here →
    Spared before.disk after.disk key
  bytes : ∀ append ∈ appends, change append (spool.bytes before.disk before.here append.bundleId)
    (spool.bytes after.disk after.here append.bundleId)
  reachable : ∀ append ∈ appends, spool.Reachable after.disk after.here append.bundleId

variable {journal : Journal} {spool : Spool.Store} {append : Append} {appends : List Append}
  {change : Append → Bytes → Bytes → Prop} {host between after stopped : Host}

lemma SpoolsChanged.moves (h : SpoolsChanged spool appends change host after)
    (replaced : Key → Prop) :
    Moves replaced (· ∈ spoolKeys spool (appends.map (·.bundleId)) host.disk host.here) host after :=
  ⟨h.here_eq, h.kept replaced, h.others⟩

lemma SpoolsChanged.refl (hchange : ∀ append old, change append old old)
    (hreachable : ∀ append ∈ appends, spool.Reachable host.disk host.here append.bundleId) :
    SpoolsChanged spool appends change host host :=
  ⟨rfl, fun _ => Kept.refl _ _, fun _ _ => Spared.refl _ _, fun append _ => hchange append _, hreachable⟩

lemma spared {disk disk' : Disk} {here : Standing} {bundleId other new : Bytes}
    (h : spool.Rewritten here bundleId disk new disk')
    (hplace : ∀ key, spool.place disk here other = some key →
      spool.place disk here bundleId ≠ some key) :
    spool.bytes disk' here other = spool.bytes disk here other ∧
      (spool.Reachable disk here other → spool.Reachable disk' here other) := by
  have hsame : ∀ key, spool.place disk here other = some key →
      disk'.bytesAt key = disk.bytesAt key :=
    fun key hkey => (h.others key (hplace key hkey)).bytesAt_eq
  refine ⟨?_, fun hreachable => hreachable.of_kept (h.kept _) hsame⟩
  unfold Spool.Store.bytes
  rw [Spool.Store.place_kept (h.kept _)]
  split
  · next key hkey => exact hsame key hkey
  · rfl

lemma spoolKeys_kept {disk disk' : Disk} {here : Standing} {bundleIds : List Bytes}
    (h : Kept (fun _ => False) disk disk') :
    spoolKeys spool bundleIds disk' here = spoolKeys spool bundleIds disk here :=
  List.filterMap_congr fun bundleId _ => Spool.Store.place_kept h spool bundleId

lemma place_ne_of_nodup {disk : Disk} {here : Standing}
    (hplaces : (spoolKeys spool ((append :: appends).map (·.bundleId)) disk here).Nodup) {key : Key}
    (hkey : spool.place disk here append.bundleId = some key) :
    key ∉ spoolKeys spool (appends.map (·.bundleId)) disk here := by
  rw [spoolKeys, List.map_cons, List.filterMap_cons_some hkey, List.nodup_cons] at hplaces
  exact hplaces.1

lemma nodup_rest {disk : Disk} {here : Standing}
    (hplaces : (spoolKeys spool ((append :: appends).map (·.bundleId)) disk here).Nodup) :
    (spoolKeys spool (appends.map (·.bundleId)) disk here).Nodup := by
  rw [spoolKeys, List.map_cons, List.filterMap_cons] at hplaces
  split at hplaces
  · exact hplaces
  · exact (List.nodup_cons.mp hplaces).2

lemma spared_rest {new : Bytes} {disk : Disk}
    (hplaces : (spoolKeys spool ((append :: appends).map (·.bundleId)) host.disk host.here).Nodup)
    (hfirst : spool.Rewritten host.here append.bundleId host.disk new disk) {other : Append}
    (hother : other ∈ appends) :
    spool.bytes disk host.here other.bundleId = spool.bytes host.disk host.here other.bundleId ∧
      (spool.Reachable host.disk host.here other.bundleId →
        spool.Reachable disk host.here other.bundleId) := by
  refine spared hfirst fun key hkey hkey' => ?_
  exact place_ne_of_nodup hplaces hkey' (mem_spoolKeys (List.mem_map_of_mem hother) hkey)

/-- **One spool after another.** The first spool is changed, then the others are. -/
theorem SpoolsChanged.cons (between : Host) {new : Bytes}
    (hplaces : (spoolKeys spool ((append :: appends).map (·.bundleId)) host.disk host.here).Nodup)
    (hfirst : spool.Rewritten host.here append.bundleId host.disk new between.disk)
    (hchange : change append (spool.bytes host.disk host.here append.bundleId) new)
    (hhere : between.here = host.here)
    (hrest : SpoolsChanged spool appends change between after) :
    SpoolsChanged spool (append :: appends) change host after := by
  have hkept : Kept (fun _ => False) host.disk between.disk := hfirst.kept _
  have hkeys : spoolKeys spool (appends.map (·.bundleId)) between.disk between.here =
      spoolKeys spool (appends.map (·.bundleId)) host.disk host.here := by
    rw [hhere, spoolKeys_kept hkept]
  have hmoves : Moves (fun _ => False)
      (· ∈ spoolKeys spool ((append :: appends).map (·.bundleId)) host.disk host.here)
      host between := by
    refine ⟨hhere, hkept, fun key hkey => hfirst.others key fun hplace => hkey ?_⟩
    exact mem_spoolKeys (by simp) hplace
  have hmoves' : Moves (fun _ => False)
      (· ∈ spoolKeys spool ((append :: appends).map (·.bundleId)) host.disk host.here)
      between after := by
    refine (hrest.moves _).mono fun key hkey => ?_
    rw [hkeys] at hkey
    obtain ⟨bundleId, hid, hplace⟩ := List.mem_filterMap.mp hkey
    exact mem_spoolKeys (List.mem_cons_of_mem _ hid) hplace
  -- The others do not touch the place of the first one again.
  have hlast : ∀ key, spool.place host.disk host.here append.bundleId = some key →
      Spared between.disk after.disk key := by
    intro key hkey
    refine hrest.others key ?_
    rw [hkeys]
    exact place_ne_of_nodup hplaces hkey
  refine ⟨hrest.here_eq.trans hhere, fun replaced => (hfirst.kept _).trans (hrest.kept _),
    (hmoves.trans hmoves').others, ?_, ?_⟩
  · intro other hother
    rcases List.mem_cons.mp hother with rfl | hother
    · have hsame : spool.bytes after.disk after.here other.bundleId = new := by
        rw [← hfirst.bytes_eq, hrest.here_eq, hhere]
        unfold Spool.Store.bytes
        rw [Spool.Store.place_kept (hrest.kept _), Spool.Store.place_kept hkept]
        split
        · next key hkey => exact (hlast key hkey).bytesAt_eq
        · rfl
      rwa [hsame]
    · have hbytes := hrest.bytes other hother
      rwa [hhere, (spared_rest hplaces hfirst hother).1] at hbytes
  · intro other hother
    rcases List.mem_cons.mp hother with rfl | hother
    · rw [hrest.here_eq, hhere]
      refine hfirst.reachable.of_kept (hrest.kept _) fun key hkey => ?_
      rw [Spool.Store.place_kept hkept] at hkey
      exact (hlast key hkey).bytesAt_eq
    · exact hrest.reachable other hother

/-! ### One append -/

/-- The steps of an append. -/
def Append.steps (append : Append) : List Step :=
  [.cutSpool append.bundleId append.baseSize, .extendSpool append.bundleId append.events]

/-- There is a path to the spool of an append, and it has as many bytes as the append is to keep. -/
structure Append.Fits (spool : Spool.Store) (host : Host) (append : Append) : Prop where
  file : ∃ path, spool.file? append.bundleId = .ok path
  size_le : append.baseSize ≤ (spool.bytes host.disk host.here append.bundleId).length

lemma runSteps_append (journal : Journal) (spool : Spool.Store) (steps more : List Step) :
    journal.runSteps spool (steps ++ more) =
      journal.runSteps spool steps >>= fun _ => journal.runSteps spool more := by
  induction steps with
  | nil => rfl
  | cons step rest ih => simp only [List.cons_append, Journal.runSteps, ih, bind_assoc]

lemma steps_eq (journal : Journal) (spool : Spool.Store) (append : Append) :
    journal.runSteps spool append.steps =
      spool.truncate append.bundleId append.baseSize >>= fun _ =>
        spool.append append.bundleId append.events >>= fun _ => Program.done () := by
  simp only [Append.steps, Journal.runSteps, Journal.runStep, bind_assoc, Program.pure_eq,
    Program.done_bind]

/-- **Carrying out one append** fails because of the system or because the append does not fit, or puts
the new lines behind the bytes that are kept. -/
theorem Append.runOn_steps (journal : Journal)
    (reachable : spool.Reachable host.disk host.here append.bundleId) :
    (∃ problem after, (journal.runSteps spool append.steps).runOn host =
        (.error (.reported problem), after) ∧ (problem.category = .io ∨ ¬ append.Fits spool host)) ∨
    ∃ disk, (journal.runSteps spool append.steps).runOn host = (.ok (), { host with disk }) ∧
      append.baseSize ≤ (spool.bytes host.disk host.here append.bundleId).length ∧
      spool.Rewritten host.here append.bundleId host.disk
        ((spool.bytes host.disk host.here append.bundleId).take append.baseSize ++
          Spool.lines append.events) disk := by
  rw [steps_eq, Program.runOn_bind]
  rcases hfile : spool.file? append.bundleId with fault | path
  · left
    refine ⟨fault.problem, host, ?_, Or.inr fun fits => ?_⟩
    · rw [Spool.Store.runOn_truncate_invalid hfile]
    · obtain ⟨path, hpath⟩ := fits.file
      rw [hfile] at hpath
      cases hpath
  rcases Spool.Store.runOn_truncate hfile reachable append.baseSize with
    ⟨problem, hcut, hwhy⟩ | ⟨disk, hcut, hsize, hrewritten⟩
  · left
    refine ⟨problem, host, by rw [hcut], hwhy.imp_right fun hshort fits => ?_⟩
    exact absurd fits.size_le (Nat.not_le.mpr hshort)
  rw [hcut]
  dsimp only
  rw [Program.runOn_bind]
  -- The cut leaves the spool where it was found, so the new lines go there.
  rcases Spool.Store.runOn_append { host with disk } hfile hrewritten.reachable append.events with
    ⟨problem, after, hextend, hio⟩ | ⟨disk', hextend, hrewritten'⟩
  · exact Or.inl ⟨problem, after, by rw [hextend], Or.inl hio⟩
  · have hbytes := hrewritten.bytes_eq
    dsimp only at hrewritten'
    rw [hbytes] at hrewritten'
    exact Or.inr ⟨disk', by rw [hextend]; rfl, hsize, hrewritten.trans hrewritten'⟩

/-- **While one append is carried out**, the spool has its bytes, or those that are kept and a part of
the new lines. -/
theorem Append.stops_steps
    (reachable : spool.Reachable host.disk host.here append.bundleId)
    (h : (journal.runSteps spool append.steps).Stops host stopped) :
    stopped = { host with disk := stopped.disk } ∧
      ∃ bytes, spool.Rewritten host.here append.bundleId host.disk bytes stopped.disk ∧
        append.CutOff (spool.bytes host.disk host.here append.bundleId) bytes := by
  rw [steps_eq] at h
  rcases h.bind with hcut | ⟨path, between, hcut, h⟩
  · obtain ⟨hhost, bytes, hrewritten, hbytes | ⟨hsize, hbytes⟩⟩ :=
      Spool.Store.stops_truncate reachable hcut
    · exact ⟨hhost, bytes, hrewritten, Or.inl hbytes⟩
    · refine ⟨hhost, bytes, hrewritten, Or.inr ⟨hsize, [], List.nil_prefix, ?_⟩⟩
      rw [hbytes, List.append_nil]
  rcases hfile : spool.file? append.bundleId with fault | file
  · rw [Spool.Store.runOn_truncate_invalid hfile] at hcut
    cases hcut
  rcases Spool.Store.runOn_truncate hfile reachable append.baseSize with
    ⟨problem, hfail, -⟩ | ⟨disk, hdone, hsize, hrewritten⟩
  · rw [hfail] at hcut
    cases hcut
  rw [hdone] at hcut
  cases hcut
  obtain ⟨hhost, part, hpart, hrewritten'⟩ :=
    Spool.Store.stops_append hrewritten.reachable h.of_bind_done
  have hbytes := hrewritten.bytes_eq
  dsimp only at hrewritten'
  rw [hbytes] at hrewritten'
  exact ⟨hhost, _, hrewritten.trans hrewritten', Or.inr ⟨hsize, part, hpart, rfl⟩⟩

/-! ### All appends -/

/-- The steps of some appends. -/
def appendSteps (appends : List Append) : List Step := appends.flatMap Append.steps

lemma appendSteps_cons (append : Append) (appends : List Append) :
    appendSteps (append :: appends) = append.steps ++ appendSteps appends :=
  List.flatMap_cons

lemma fits_rest {disk : Disk} {new : Bytes}
    (hplaces : (spoolKeys spool ((append :: appends).map (·.bundleId)) host.disk host.here).Nodup)
    (hfirst : spool.Rewritten host.here append.bundleId host.disk new disk) {other : Append}
    (hother : other ∈ appends) (fits : other.Fits spool host) :
    other.Fits spool { host with disk } := by
  refine ⟨fits.file, ?_⟩
  dsimp only
  rw [(spared_rest hplaces hfirst hother).1]
  exact fits.size_le

/-- **Carrying out appends** at different places fails because of the system or because one of them does
not fit, or each spool gets its new lines. -/
theorem runOn_appendSteps (journal : Journal)
    (hplaces : (spoolKeys spool (appends.map (·.bundleId)) host.disk host.here).Nodup)
    (reachable : ∀ append ∈ appends, spool.Reachable host.disk host.here append.bundleId) :
    (∃ problem after, (journal.runSteps spool (appendSteps appends)).runOn host =
        (.error (.reported problem), after) ∧
      (problem.category = .io ∨ ∃ append ∈ appends, ¬ append.Fits spool host)) ∨
    ∃ disk, (journal.runSteps spool (appendSteps appends)).runOn host = (.ok (), { host with disk }) ∧
      SpoolsChanged spool appends Append.Done host { host with disk } := by
  induction appends generalizing host with
  | nil =>
    refine Or.inr ⟨host.disk, rfl, ⟨rfl, fun _ => Kept.refl _ _, fun _ _ => Spared.refl _ _, ?_, ?_⟩⟩
    · exact fun _ h => nomatch h
    · exact fun _ h => nomatch h
  | cons append rest ih =>
    rw [appendSteps_cons, runSteps_append, Program.runOn_bind]
    rcases append.runOn_steps journal (reachable append List.mem_cons_self) with
      ⟨problem, after, hrun, hwhy⟩ | ⟨disk, hrun, hsize, hrewritten⟩
    · left
      refine ⟨problem, after, by rw [hrun], hwhy.imp_right fun hfits => ?_⟩
      exact ⟨append, List.mem_cons_self, hfits⟩
    rw [hrun]
    dsimp only
    -- The induction goes on from the disk on which the first append is done; what it needs of the other spools has
    -- stayed.
    have hkept : Kept (fun _ => False) host.disk disk := hrewritten.kept _
    have hplaces' : (spoolKeys spool (rest.map (·.bundleId)) disk host.here).Nodup := by
      rw [spoolKeys_kept hkept]
      exact nodup_rest hplaces
    have hreachable : ∀ other ∈ rest, spool.Reachable disk host.here other.bundleId :=
      fun other hother => (spared_rest hplaces hrewritten hother).2
        (reachable other (List.mem_cons_of_mem _ hother))
    rcases @ih { host with disk } hplaces' hreachable with
      ⟨problem, after, hrest, hwhy⟩ | ⟨disk', hrest, hchanged⟩
    · refine Or.inl ⟨problem, after, hrest, hwhy.imp_right ?_⟩
      rintro ⟨other, hother, hfits⟩
      exact ⟨other, List.mem_cons_of_mem _ hother,
        fun fits => hfits (fits_rest hplaces hrewritten hother fits)⟩
    · exact Or.inr ⟨disk', hrest, SpoolsChanged.cons { host with disk } hplaces hrewritten
        ⟨hsize, rfl⟩ rfl hchanged⟩

/-- **While appends are carried out**, each spool has its bytes, or those that are kept and a part of the
new lines. -/
theorem stops_appendSteps
    (hplaces : (spoolKeys spool (appends.map (·.bundleId)) host.disk host.here).Nodup)
    (reachable : ∀ append ∈ appends, spool.Reachable host.disk host.here append.bundleId)
    (h : (journal.runSteps spool (appendSteps appends)).Stops host stopped) :
    SpoolsChanged spool appends Append.CutOff host stopped := by
  induction appends generalizing host with
  | nil =>
    rw [h.done]
    exact SpoolsChanged.refl (fun _ _ => Or.inl rfl) reachable
  | cons append rest ih =>
    rw [appendSteps_cons, runSteps_append] at h
    have hreachable : ∀ other ∈ rest, spool.Reachable host.disk host.here other.bundleId :=
      fun other hother => reachable other (List.mem_cons_of_mem _ hother)
    rcases h.bind with hfirst | ⟨_, between, hrun, hlater⟩
    · obtain ⟨hhost, new, hrewritten, hnew⟩ :=
        Append.stops_steps (reachable append List.mem_cons_self) hfirst
      -- The other spools have not been reached.
      have hrest : SpoolsChanged spool rest Append.CutOff stopped stopped := by
        refine SpoolsChanged.refl (fun _ _ => Or.inl rfl) fun other hother => ?_
        rw [hhost]
        exact (spared_rest hplaces hrewritten hother).2 (hreachable other hother)
      exact SpoolsChanged.cons stopped hplaces hrewritten hnew (by rw [hhost]) hrest
    · rcases append.runOn_steps journal (reachable append List.mem_cons_self) with
        ⟨problem, after, hfail, -⟩ | ⟨disk, hdone, hsize, hrewritten⟩
      · rw [hfail] at hrun
        cases hrun
      rw [hdone] at hrun
      cases hrun
      have hkept : Kept (fun _ => False) host.disk disk := hrewritten.kept _
      have hrest := @ih { host with disk }
        (by
          dsimp only
          rw [spoolKeys_kept hkept]
          exact nodup_rest hplaces)
        (fun other hother => (spared_rest hplaces hrewritten hother).2 (hreachable other hother))
        hlater
      exact SpoolsChanged.cons { host with disk } hplaces hrewritten
        (Append.Done.cutOff ⟨hsize, rfl⟩) rfl hrest

end Chronicle.Commit
