import NotePress.Proofs.Disk.Sights

/-!
# What writing adds to a disk

A file is written at the place that its path leads to, which may be behind a link, and
a file that is there may have other names. Nothing is removed or moved by it. So a path
that leads somewhere goes on leading there, and whatever changes is a file that one of
the written paths leads to.
-/

namespace NotePress
namespace Disk

/-- Disks that differ at a location, in what stands there or in what the file there
holds. -/
def Differ (before after : Disk) (location : Location) : Prop :=
  after.entryAt? location ≠ before.entryAt? location ∨
    after.contentAt location ≠ before.contentAt location

instance (before after : Disk) (location : Location) :
    Decidable (Differ before after location) :=
  inferInstanceAs (Decidable (_ ∨ _))

/-- How writing to some paths changes a disk: files are made where the paths lead to
nothing, and the files that they lead to may change. -/
structure Accrues
    (outputs : Path → Prop)
    (before after : Disk) : Prop where
  workingDirectory : after.workingDirectory = before.workingDirectory
  stays : ∀ {location entry}, before.entryAt? location = some entry →
    after.entryAt? location = some entry
  fresh : ∀ {location}, before.entryAt? location = none →
    after.entryAt? location = none ∨
      ∃ output index, outputs output ∧ after.locate output = .ok location ∧
        after.entryAt? location = some (.file index)
  nodes : ∀ index, after.node index = before.node index ∨
    ∃ output, outputs output ∧ after.lookup? output = some (.file index)

/-- New files are in nobody's way. -/
theorem keepsWays_of_stays
    {before after : Disk}
    (workingDirectory : after.workingDirectory = before.workingDirectory)
    (stays : ∀ {location entry}, before.entryAt? location = some entry →
      after.entryAt? location = some entry)
    (fresh : ∀ {location}, before.entryAt? location = none →
      after.entryAt? location = none ∨
        ∃ index, after.entryAt? location = some (.file index)) :
    KeepsWays before after where
  workingDirectory := workingDirectory
  directory := stays
  link := by
    intro location target
    refine ⟨stays, fun linked => ?_⟩
    cases found : before.entryAt? location with
    | none =>
        rcases fresh found with absent | ⟨index, made⟩
        · rw [absent] at linked
          cases linked
        · rw [made] at linked
          cases linked
    | some entry => exact (stays found).symm.trans linked

namespace Accrues

variable
  {outputs : Path → Prop}
  {first second third : Disk}

theorem refl (disk : Disk) : Accrues outputs disk disk :=
  ⟨rfl, id, .inl, fun _ => .inl rfl⟩

theorem keepsWays (accrues : Accrues outputs first second) :
    KeepsWays first second :=
  keepsWays_of_stays accrues.workingDirectory accrues.stays fun absent =>
    (accrues.fresh absent).imp_right fun ⟨_, index, _, _, made⟩ => ⟨index, made⟩

/-- What a path leads to stays. -/
theorem lookup
    (accrues : Accrues outputs first second)
    {path : Path}
    {entry : Entry}
    (found : first.lookup? path = some entry) :
    second.lookup? path = some entry := by
  obtain ⟨location, located, found⟩ := lookup_iff.mp found
  exact lookup_iff.mpr
    ⟨location, accrues.keepsWays.locate located, accrues.stays found⟩

theorem trans
    (front : Accrues outputs first second)
    (back : Accrues outputs second third) :
    Accrues outputs first third where
  workingDirectory := back.workingDirectory.trans front.workingDirectory
  stays := fun found => back.stays (front.stays found)
  fresh := by
    intro location absent
    rcases front.fresh absent with still | ⟨output, index, written, located, made⟩
    · exact back.fresh still
    · exact .inr ⟨output, index, written, back.keepsWays.locate located,
        back.stays made⟩
  nodes := by
    intro index
    rcases back.nodes index with same | written
    · rw [same]
      exact (front.nodes index).imp_right fun ⟨output, written, found⟩ =>
        ⟨output, written, back.lookup found⟩
    · exact .inr written

/-- What is new stands where a written path leads to. -/
theorem located
    (accrues : Accrues outputs first second)
    {location : Location}
    (different : second.entryAt? location ≠ first.entryAt? location) :
    first.entryAt? location = none ∧
      ∃ output, outputs output ∧ second.locate output = .ok location := by
  cases found : first.entryAt? location with
  | none =>
      refine ⟨rfl, ?_⟩
      rcases accrues.fresh found with absent | ⟨output, _, written, located, _⟩
      · exact absurd (absent.trans found.symm) different
      · exact ⟨output, written, located⟩
  | some entry => exact absurd ((accrues.stays found).trans found.symm) different

/-- What differs is a file that a written path leads to, by whatever name. -/
theorem found
    (accrues : Accrues outputs first second)
    {location : Location}
    (differ : Differ first second location) :
    ∃ output index, outputs output ∧
      second.lookup? output = some (.file index) ∧
      second.entryAt? location = some (.file index) := by
  cases stood : first.entryAt? location with
  | none =>
      rcases accrues.fresh stood with
        absent | ⟨output, index, written, located, made⟩
      · have nothing : second.contentAt location = first.contentAt location := by
          rw [contentAt, contentAt, nodeAt?, nodeAt?, absent, stood]
        exact (differ.elim (· (absent.trans stood.symm)) (· nothing)).elim
      · exact ⟨output, index, written, lookup_iff.mpr ⟨location, located, made⟩,
          made⟩
  | some entry =>
      have stands := accrues.stays stood
      have changed := differ.resolve_left (· (stands.trans stood.symm))
      rw [contentAt, contentAt, nodeAt?, nodeAt?, stands, stood] at changed
      cases entry with
      | file index =>
          obtain ⟨output, written, found⟩ := (accrues.nodes index).resolve_left
            fun same => changed (congrArg FileNode.content same)
          exact ⟨output, index, written, found, stands⟩
      | _ => exact (changed rfl).elim

end Accrues

/-! ## Writing -/

section Writing

variable
  {disk : Disk}
  {outputs : Path → Prop}

theorem accrues_changeFile
    {file : OpenFile}
    (leads : ∀ index, file = some index →
      ∃ output, outputs output ∧ disk.lookup? output = some (.file index))
    (change : FileNode → FileNode) :
    Accrues outputs disk (disk.changeFile file change) := by
  cases file with
  | none => exact .refl disk
  | some index =>
      refine ⟨rfl, id, .inl, fun other => ?_⟩
      by_cases same : other = index
      · obtain ⟨output, written, found⟩ := leads index rfl
        obtain ⟨location, located, found⟩ := lookup_iff.mp found
        have ways : KeepsWays disk (disk.changeFile (some index) change) :=
          keepsWays_of_stays rfl id .inl
        rw [same]
        exact .inr ⟨output, written,
          lookup_iff.mpr ⟨location, ways.locate located, found⟩⟩
      · exact .inl (disk.node_changeNode_of_ne same change)

/-- An open file is what its path leads to. -/
theorem accrues_openAt
    {path : Path}
    (written : outputs path)
    {location : Location}
    (located : disk.locate path = .ok location)
    {file : OpenFile}
    {opened : Disk}
    (opens : disk.openAt location = .ok (file, opened)) :
    Accrues outputs disk opened ∧
      ∀ index, file = some index → opened.lookup? path = some (.file index) := by
  rw [openAt] at opens
  split at opens
  next => cases opens
  next found =>
    cases opens
    refine ⟨.refl disk, fun index same => ?_⟩
    cases same
    exact lookup_iff.mpr ⟨location, located, found⟩
  next =>
    cases opens
    exact ⟨.refl disk, fun index same => by cases same⟩
  next absent =>
    cases opens
    have made := entryAt_addFile absent {}
    have ways : KeepsWays disk (disk.addFile location {}) := by
      refine keepsWays_of_stays rfl (entryAt_addFile_of_some absent {})
        fun missing => (entryAt_addFile_of_none absent {} missing).imp_right ?_
      rintro rfl
      exact ⟨_, made⟩
    have leads := ways.locate located
    refine ⟨⟨rfl, entryAt_addFile_of_some absent {},
      fun missing => (entryAt_addFile_of_none absent {} missing).imp_right ?_,
      fun index => .inl (node_addFile index)⟩, ?_⟩
    · rintro rfl
      exact ⟨path, _, written, leads, made⟩
    · intro index same
      cases same
      exact lookup_iff.mpr ⟨location, leads, made⟩

theorem accrues_createFile
    {path : Path}
    (written : outputs path)
    {file : OpenFile}
    {created : Disk}
    (creates : disk.createFile path = .ok (file, created)) :
    Accrues outputs disk created ∧
      ∀ index, file = some index → created.lookup? path = some (.file index) := by
  rw [createFile] at creates
  split at creates
  next => cases creates
  next location located =>
    split at creates
    next => cases creates
    next opened opens =>
      cases creates
      obtain ⟨opening, leads⟩ := accrues_openAt written located opens
      have clearing : Accrues outputs opened (opened.clear file) :=
        accrues_changeFile (fun index same => ⟨path, written, leads index same⟩) _
      exact ⟨opening.trans clearing,
        fun index same => clearing.lookup (leads index same)⟩

theorem accrues_writeStylesheet
    {directory : Path}
    (isOutput : outputs (Stylesheet.pathIn directory))
    {source : Option Path}
    {written : Disk}
    (writes : Stylesheet.write disk directory source = .ok written) :
    Accrues outputs disk written := by
  obtain ⟨file, created, change, creates, rfl⟩ := Stylesheet.creates_of_write writes
  obtain ⟨creating, leads⟩ := accrues_createFile isOutput creates
  exact creating.trans (accrues_changeFile
    (fun index same => ⟨_, isOutput, leads index same⟩) change)

end Writing

end Disk
end NotePress
