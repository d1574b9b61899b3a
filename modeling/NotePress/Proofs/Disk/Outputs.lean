import Mathlib.Data.List.Induction
import Mathlib.Data.List.Nodup
import NotePress.Proofs.Disk.LinkFree
import NotePress.Proofs.Disk.Walking
import NotePress.Proofs.Page.PageFile

/-!
# Writing outputs

Pages and stylesheets are written to places that are told by their names. On an
orderly disk what is at such a place is a directory, or a file that is known by no
other name. So writing an output makes at most a file at its place, and every other
file keeps what it holds.
-/

namespace NotePress

instance (name : List Char) : Decidable (Path.IsProper name) :=
  decidable_of_iff ('/' ∉ name ∧ Path.isIdle name = false ∧ name ≠ ['.', '.'])
    ⟨fun ⟨clean, notIdle, notUp⟩ => ⟨clean, notIdle, notUp⟩,
      fun ⟨clean, notIdle, notUp⟩ => ⟨clean, notIdle, notUp⟩⟩

instance (location : Location) : Decidable location.IsProper :=
  inferInstanceAs (Decidable (∀ name ∈ location, Path.IsProper name.toList))

/-- A file has a node, of which there are some. -/
def Entry.IsHeld (size : Nat) : Entry → Prop
  | .file index => index < size
  | _ => True

/-- A directory or a regular file. -/
def Entry.IsPlain : Entry → Prop
  | .file _ | .directory => True
  | _ => False

/-- A node that is there stays there when one more comes. -/
theorem Entry.IsHeld.mono
    {size : Nat}
    {entry : Entry}
    (held : entry.IsHeld size) :
    entry.IsHeld (size + 1) := by
  cases entry with
  | file index => exact Nat.lt_succ_of_lt held
  | _ => trivial

instance (size : Nat) : DecidablePred (Entry.IsHeld size)
  | .file index => inferInstanceAs (Decidable (index < size))
  | .directory | .link _ | .device => inferInstanceAs (Decidable True)

instance : DecidablePred Entry.IsPlain
  | .file _ | .directory => inferInstanceAs (Decidable True)
  | .link _ | .device => inferInstanceAs (Decidable False)

instance (entry : Entry) : Decidable (∀ target, entry ≠ .link target) :=
  match entry with
  | .link target => .isFalse fun unlinked => unlinked target rfl
  | .file _ | .directory | .device => .isTrue fun _ => Entry.noConfusion

namespace Disk

instance (disk : Disk) : Decidable disk.LinkFree :=
  inferInstanceAs
    (Decidable (∀ found ∈ disk.entries, ∀ target, found.2 ≠ .link target))

/-- A disk whose entries are the nodes of a tree with proper names, and on which the
place of an output has a directory, or a file without any other name. -/
structure IsOrderly (disk : Disk) : Prop where
  distinct : (disk.entries.map Prod.fst).Nodup
  named : ∀ found ∈ disk.entries, found.1.IsProper
  inside : ∀ found ∈ disk.entries,
    disk.entryAt? found.1.dropLast = some .directory
  held : ∀ found ∈ disk.entries, found.2.IsHeld disk.nodes.size
  plain : ∀ found ∈ disk.entries, found.1.IsOutput → found.2.IsPlain
  alone : ∀ found ∈ disk.entries, ∀ other ∈ disk.entries, found.1.IsOutput →
    other.2 = found.2 → found.2 = .directory ∨ other.1 = found.1
  workingDirectory : disk.workingDirectory.IsProper

instance (disk : Disk) : Decidable disk.IsOrderly :=
  decidable_of_iff
    ((disk.entries.map Prod.fst).Nodup ∧
      (∀ found ∈ disk.entries, found.1.IsProper) ∧
      (∀ found ∈ disk.entries,
        disk.entryAt? found.1.dropLast = some .directory) ∧
      (∀ found ∈ disk.entries, found.2.IsHeld disk.nodes.size) ∧
      (∀ found ∈ disk.entries, found.1.IsOutput → found.2.IsPlain) ∧
      (∀ found ∈ disk.entries, ∀ other ∈ disk.entries, found.1.IsOutput →
        other.2 = found.2 → found.2 = .directory ∨ other.1 = found.1) ∧
      disk.workingDirectory.IsProper)
    ⟨fun ⟨distinct, named, inside, held, plain, alone, workingDirectory⟩ =>
        ⟨distinct, named, inside, held, plain, alone, workingDirectory⟩,
      fun ⟨distinct, named, inside, held, plain, alone, workingDirectory⟩ =>
        ⟨distinct, named, inside, held, plain, alone, workingDirectory⟩⟩

/-! ## Looking up -/

/-- An entry whose location occurs once is found by looking it up. -/
theorem lookup_of_mem
    {entries : List (Location × Entry)}
    (distinct : (entries.map Prod.fst).Nodup)
    {location : Location}
    {entry : Entry}
    (member : (location, entry) ∈ entries) :
    entries.lookup location = some entry := by
  induction entries with
  | nil => cases member
  | cons first others inductionHypothesis =>
      rw [List.map_cons, List.nodup_cons] at distinct
      rw [List.lookup_cons]
      rcases List.mem_cons.mp member with rfl | later
      · rw [beq_self_eq_true]
      · have different : ¬location = first.1 := by
          intro same
          exact distinct.1 (same ▸ List.mem_map_of_mem later)
        rw [beq_false_of_ne different]
        exact inductionHypothesis distinct.2 later

/-- Other than the root, entries are looked up in the list. -/
theorem entryAt_of_ne_nil
    (disk : Disk)
    {location : Location}
    (nonempty : location ≠ []) :
    disk.entryAt? location = disk.entries.lookup location := by
  obtain ⟨first, others, rfl⟩ := List.exists_cons_of_ne_nil nonempty
  rfl

/-- What is found at a location other than the root is one of the entries. -/
theorem mem_of_entryAt
    {disk : Disk}
    {location : Location}
    {entry : Entry}
    (nonempty : location ≠ [])
    (found : disk.entryAt? location = some entry) :
    (location, entry) ∈ disk.entries :=
  mem_of_lookup ((disk.entryAt_of_ne_nil nonempty).symm.trans found)

/-- The root is no file. -/
theorem ne_nil_of_file
    {disk : Disk}
    {location : Location}
    {index : Nat}
    (found : disk.entryAt? location = some (.file index)) :
    location ≠ [] := by
  rintro rfl
  cases found

namespace IsOrderly

variable
  {disk : Disk}
  (orderly : disk.IsOrderly)
  {location other : Location}
  {entry : Entry}
  {index : Nat}

include orderly

/-- Every entry of an orderly disk is found at its location. -/
theorem entryAt_of_mem
    (nonempty : location ≠ [])
    (member : (location, entry) ∈ disk.entries) :
    disk.entryAt? location = some entry :=
  (disk.entryAt_of_ne_nil nonempty).trans (lookup_of_mem orderly.distinct member)

/-- The node of a file is there. -/
theorem lt_size
    (found : disk.entryAt? location = some (.file index)) :
    index < disk.nodes.size :=
  orderly.held _ (mem_of_entryAt (ne_nil_of_file found) found)

/-- What is found has a location of proper names. -/
theorem isProper
    (found : disk.entryAt? location = some entry) :
    location.IsProper := by
  by_cases nonempty : location = []
  · rw [nonempty]
    exact List.forall_mem_nil _
  · exact orderly.named _ (mem_of_entryAt nonempty found)

/-- What is found is in a directory. -/
theorem parent
    (found : disk.entryAt? location = some entry) :
    disk.entryAt? location.dropLast = some .directory := by
  by_cases nonempty : location = []
  · rw [nonempty]
    rfl
  · exact orderly.inside _ (mem_of_entryAt nonempty found)

/-- On an orderly disk no output is a symbolic link. -/
theorem output_ne_link
    (isOutput : location.IsOutput)
    (target : String) :
    disk.entryAt? location ≠ some (.link target) := by
  intro found
  have nonempty : location ≠ [] := by
    rintro rfl
    cases found
  exact orderly.plain _ (mem_of_entryAt nonempty found) isOutput

/-- On an orderly disk no output is a device. -/
theorem output_ne_device
    (isOutput : location.IsOutput) :
    disk.entryAt? location ≠ some .device := by
  intro found
  have nonempty : location ≠ [] := by
    rintro rfl
    cases found
  exact orderly.plain _ (mem_of_entryAt nonempty found) isOutput

/-- The file of an output has no other name. -/
theorem eq_of_file
    (isOutput : location.IsOutput)
    (found : disk.entryAt? location = some (.file index))
    (same : disk.entryAt? other = some (.file index)) :
    other = location :=
  (orderly.alone _ (mem_of_entryAt (ne_nil_of_file found) found) _
    (mem_of_entryAt (ne_nil_of_file same) same) isOutput rfl).resolve_left
      Entry.noConfusion

/-- A directory is only inside directories. -/
theorem directory_of_append
    (rest : Location)
    (found : disk.entryAt? (location ++ rest) = some .directory) :
    disk.entryAt? location = some .directory := by
  induction rest using List.reverseRecOn with
  | nil => rwa [List.append_nil] at found
  | append_singleton before name inductionHypothesis =>
      refine inductionHypothesis ?_
      rw [← List.append_assoc] at found
      have around := orderly.parent found
      rwa [List.dropLast_concat] at around

/-- A path that spells the names of a location in a directory leads there, if the
location is no link itself. -/
theorem locate_of_spells
    {path : Path}
    (spells : Path.Spells path (location.map String.toList))
    (around : disk.entryAt? location.dropLast = some .directory)
    (unlinked : ∀ target, disk.entryAt? location ≠ some (.link target))
    (found : disk.locate path = .ok other) :
    other = location := by
  refine Disk.locate_of_spells spells ?_ found
  intro before name after target cut linked
  rcases List.eq_nil_or_concat' after with rfl | ⟨between, last, rfl⟩
  · rw [cut] at unlinked
    exact unlinked target linked
  · have above : disk.entryAt? (before ++ [name] ++ between) =
        some .directory := by
      rw [cut, ← List.cons_append, ← List.append_assoc, List.dropLast_concat]
        at around
      rw [List.append_assoc]
      exact around
    rw [orderly.directory_of_append between above] at linked
    cases linked

/-- The path of a file leads to the file. -/
theorem locate_path
    (found : disk.entryAt? location = some (.file index))
    (located : disk.locate (Location.path location) = .ok other) :
    other = location := by
  refine orderly.locate_of_spells (orderly.isProper found).spells
    (orderly.parent found) (fun target linked => ?_) located
  rw [found] at linked
  cases linked

/-! ## Changing a file -/

/-- Changing a file leaves a disk orderly. -/
theorem changeFile
    (file : OpenFile)
    (change : FileNode → FileNode) :
    (disk.changeFile file change).IsOrderly := by
  cases file with
  | none => exact orderly
  | some index =>
      refine ⟨orderly.distinct, orderly.named, orderly.inside, ?_, orderly.plain,
        orderly.alone, orderly.workingDirectory⟩
      rw [Disk.changeFile, changeNode, Array.size_modify]
      exact orderly.held

omit orderly in
theorem replaceEntry_of_absent
    {entries : List (Location × Entry)}
    (absent : entries.lookup location = none)
    (entry : Entry) :
    replaceEntry location entry entries = entries ++ [(location, entry)] := by
  induction entries with
  | nil => rfl
  | cons first others inductionHypothesis =>
      rw [List.lookup_cons] at absent
      split at absent
      · cases absent
      next different =>
        have other : ¬first.1 = location := fun same => by
          rw [same, beq_self_eq_true] at different
          cases different
        rw [replaceEntry, if_neg other, inductionHypothesis absent]
        rfl

end IsOrderly

section AddFile

variable
  {disk : Disk}
  {location : Location}
  (absent : disk.entryAt? location = none)
  (node : FileNode)

include absent

/-- There is always something at the root. -/
theorem ne_nil_of_absent : location ≠ [] := by
  rintro rfl
  cases absent

/-- A new file is one more entry. -/
theorem entries_addFile :
    (disk.addFile location node).entries =
      disk.entries ++ [(location, .file disk.nodes.size)] := by
  rw [disk.entryAt_of_ne_nil (ne_nil_of_absent absent)] at absent
  exact IsOrderly.replaceEntry_of_absent absent _

/-- A new file is found at its place. -/
theorem entryAt_addFile :
    (disk.addFile location node).entryAt? location =
      some (.file disk.nodes.size) := by
  have nonempty := ne_nil_of_absent absent
  rw [entryAt_of_ne_nil _ nonempty, entries_addFile absent, List.lookup_append,
    ← disk.entryAt_of_ne_nil nonempty, absent, Option.none_or, List.lookup_cons,
    beq_self_eq_true]

/-- A new file changes nothing at other places. -/
theorem entryAt_addFile_of_ne
    {other : Location}
    (different : other ≠ location) :
    (disk.addFile location node).entryAt? other = disk.entryAt? other := by
  by_cases nonempty : other = []
  · rw [nonempty]
    rfl
  · rw [entryAt_of_ne_nil _ nonempty, entryAt_of_ne_nil _ nonempty,
      entries_addFile absent, List.lookup_append, List.lookup_cons,
      beq_false_of_ne different, List.lookup_nil, Option.or_none]

/-- A new file is in nobody's place. -/
theorem entryAt_addFile_of_some
    {other : Location}
    {entry : Entry}
    (found : disk.entryAt? other = some entry) :
    (disk.addFile location node).entryAt? other = some entry := by
  rwa [entryAt_addFile_of_ne absent]
  rintro rfl
  rw [absent] at found
  cases found

/-- After a file is added, nothing new is found but at its place. -/
theorem entryAt_addFile_of_none
    {other : Location}
    (missing : disk.entryAt? other = none) :
    (disk.addFile location node).entryAt? other = none ∨ other = location := by
  by_cases same : other = location
  · exact .inr same
  · rw [entryAt_addFile_of_ne absent _ same]
    exact .inl missing

omit absent in
/-- A new file is empty, as is every node that is not there yet. -/
theorem node_addFile (index : Nat) :
    (disk.addFile location {}).node index = disk.node index := by
  rw [Disk.node, Disk.node, addFile, put]
  dsimp only
  rw [Array.getElem?_push]
  split
  next last =>
    rw [last, Array.getElem?_eq_none (Nat.le_refl _)]
    rfl
  next => rfl

/-- A file added in a directory, with a proper name, leaves a disk orderly. -/
theorem IsOrderly.addFile
    (orderly : disk.IsOrderly)
    (proper : location.IsProper)
    (around : disk.entryAt? location.dropLast = some .directory) :
    (disk.addFile location node).IsOrderly := by
  have nonempty := ne_nil_of_absent absent
  have entries := entries_addFile absent node
  have stays : ∀ place, disk.entryAt? place = some .directory →
      (disk.addFile location node).entryAt? place = some .directory :=
    fun _ => entryAt_addFile_of_some absent node
  have size : (disk.addFile location node).nodes.size = disk.nodes.size + 1 :=
    Array.size_push _
  have cases : ∀ found ∈ (disk.addFile location node).entries,
      found ∈ disk.entries ∨ found = (location, .file disk.nodes.size) := by
    intro found member
    rw [entries] at member
    exact (List.mem_append.mp member).imp_right List.mem_singleton.mp
  refine ⟨?_, ?_, ?_, ?_, ?_, ?_, orderly.workingDirectory⟩
  · rw [entries, List.map_append, List.map_singleton, List.nodup_append]
    refine ⟨orderly.distinct, List.nodup_singleton _, ?_⟩
    rintro place member _ single rfl
    obtain rfl : place = location := List.mem_singleton.mp single
    obtain ⟨found, among, rfl⟩ := List.mem_map.mp member
    have present := orderly.entryAt_of_mem nonempty among
    rw [absent] at present
    cases present
  · intro found member
    rcases cases found member with old | rfl
    · exact orderly.named found old
    · exact proper
  · intro found member
    rcases cases found member with old | rfl
    · exact stays _ (orderly.inside found old)
    · exact stays _ around
  · intro found member
    rw [size]
    rcases cases found member with old | rfl
    · exact (orderly.held found old).mono
    · exact Nat.lt_succ_self _
  · intro found member isOutput
    rcases cases found member with old | rfl
    · exact orderly.plain found old isOutput
    · trivial
  · intro found member other otherMember isOutput same
    rcases cases found member with old | rfl <;>
      rcases cases other otherMember with otherOld | rfl
    · exact orderly.alone found old other otherOld isOutput same
    · have held := orderly.held found old
      rw [← same] at held
      exact absurd held (Nat.lt_irrefl _)
    · have held := orderly.held other otherOld
      rw [same] at held
      exact absurd held (Nat.lt_irrefl _)
    · exact .inr rfl

end AddFile

/-! ## Growing -/

/-- How writing changes a disk: files may be made at some places, and the files there
may change. Everything else stays. -/
structure Grows
    (touched : Location → Prop)
    (before after : Disk) : Prop where
  orderly : after.IsOrderly
  workingDirectory : after.workingDirectory = before.workingDirectory
  stays : ∀ {location entry}, before.entryAt? location = some entry →
    after.entryAt? location = some entry
  fresh : ∀ {location}, before.entryAt? location = none →
    after.entryAt? location = none ∨
      touched location ∧ ∃ index, after.entryAt? location = some (.file index)
  contents : ∀ {location index}, before.entryAt? location = some (.file index) →
    ¬touched location → (after.node index).content = (before.node index).content

namespace Grows

variable
  {touched others : Location → Prop}
  {first second third : Disk}

theorem refl (orderly : first.IsOrderly) : Grows touched first first :=
  ⟨orderly, rfl, id, .inl, fun _ _ => rfl⟩

theorem mono
    (grows : Grows touched first second)
    (among : ∀ location, touched location → others location) :
    Grows others first second :=
  ⟨grows.orderly, grows.workingDirectory, grows.stays,
    fun absent => (grows.fresh absent).imp_right (And.imp_left (among _)),
    fun found untouched =>
      grows.contents found fun touched => untouched (among _ touched)⟩

theorem trans
    (front : Grows touched first second)
    (back : Grows touched second third) :
    Grows touched first third where
  orderly := back.orderly
  workingDirectory := back.workingDirectory.trans front.workingDirectory
  stays := fun found => back.stays (front.stays found)
  fresh := by
    intro location absent
    rcases front.fresh absent with still | ⟨touched, index, made⟩
    · exact back.fresh still
    · exact .inr ⟨touched, index, back.stays made⟩
  contents := fun found untouched =>
    (back.contents (front.stays found) untouched).trans
      (front.contents found untouched)

/-- What is not touched has the same entry. -/
theorem entryAt
    (grows : Grows touched first second)
    {location : Location}
    (untouched : ¬touched location) :
    second.entryAt? location = first.entryAt? location := by
  cases found : first.entryAt? location with
  | none =>
      exact (grows.fresh found).resolve_right fun made => untouched made.1
  | some entry => exact grows.stays found

/-- What is not touched holds the same. -/
theorem contentAt
    (grows : Grows touched first second)
    {location : Location}
    (untouched : ¬touched location) :
    second.contentAt location = first.contentAt location := by
  rw [Disk.contentAt, Disk.contentAt, nodeAt?, nodeAt?, grows.entryAt untouched]
  cases found : first.entryAt? location with
  | none => rfl
  | some entry =>
      cases entry with
      | file index => exact grows.contents found untouched
      | _ => rfl

end Grows

section Writing

variable
  {disk : Disk}
  (orderly : disk.IsOrderly)
  {location : Location}
  (isOutput : location.IsOutput)

include orderly isOutput

/-- Only an output changes when its file is changed. -/
theorem grows_changeFile
    {index : Nat}
    (found : disk.entryAt? location = some (.file index))
    (change : FileNode → FileNode) :
    Grows (· = location) disk (disk.changeFile (some index) change) := by
  refine ⟨orderly.changeFile _ _, rfl, id, .inl, ?_⟩
  intro other file same untouched
  have different : file ≠ index := by
    rintro rfl
    exact untouched (orderly.eq_of_file isOutput found same)
  rw [changeFile, disk.node_changeNode_of_ne different]

/-- What creating the file of an output does. -/
structure Creates
    (disk : Disk)
    (path : Path)
    (location : Location)
    (file : OpenFile)
    (created : Disk)
    (index : Nat) : Prop where
  located : disk.locate path = .ok location
  file : file = some index
  grows : Grows (· = location) disk created
  found : created.entryAt? location = some (.file index)
  empty : (created.node index).content = .empty

/-- Creating an output in a directory makes a file there, or opens the one that is
there, and leaves the disk orderly. -/
theorem creates_of_createFile
    {path : Path}
    (spells : Path.Spells path (location.map String.toList))
    (around : disk.entryAt? location.dropLast = some .directory)
    {file : OpenFile}
    {created : Disk}
    (creates : disk.createFile path = .ok (file, created)) :
    ∃ index, Creates disk path location file created index := by
  rw [createFile] at creates
  split at creates
  next => cases creates
  next place located =>
    obtain rfl := orderly.locate_of_spells spells around
      (orderly.output_ne_link isOutput) located
    have proper : place.IsProper :=
      isProper_of_locate orderly.workingDirectory located
    split at creates
    next => cases creates
    next opens =>
      cases creates
      rw [openAt] at opens
      split at opens
      next => cases opens
      next index found =>
        cases opens
        refine ⟨index, located, rfl, grows_changeFile orderly isOutput found _,
          found, ?_⟩
        rw [clear, changeFile, disk.node_changeNode (orderly.lt_size found)]
      next entry notDirectory notFile found =>
        cases opens
        cases entry with
        | file index => exact absurd rfl (notFile index)
        | directory => exact absurd rfl notDirectory
        | link target => exact absurd found (orderly.output_ne_link isOutput _)
        | device => exact absurd found (orderly.output_ne_device isOutput)
      next absent =>
        cases opens
        have added := orderly.addFile absent {} proper around
        have made := entryAt_addFile absent {}
        have adds : Grows (· = place) disk (disk.addFile place {}) := by
          refine ⟨added, rfl, entryAt_addFile_of_some absent {}, fun missing => ?_,
            fun _ _ => by rw [node_addFile]⟩
          refine (entryAt_addFile_of_none absent {} missing).imp_right ?_
          rintro rfl
          exact ⟨rfl, _, made⟩
        refine ⟨_, located, rfl,
          adds.trans (grows_changeFile added isOutput made _), made, ?_⟩
        rw [clear, changeFile, node_changeNode _ (added.lt_size made)]

end Writing

/-- A text that is at a place is read there. -/
theorem readText_of_contentAt
    {disk : Disk}
    {path : Path}
    {location : Location}
    (located : disk.locate path = .ok location)
    {text : String}
    (holds : disk.contentAt location = .ofText text)
    (nonempty : text ≠ "") :
    disk.readText path = .ok text := by
  have present : disk.nodeAt? location ≠ none := by
    intro absent
    rw [contentAt, absent] at holds
    have texts := congrArg Content.text? holds
    rw [Content.text_ofText] at texts
    exact nonempty (Option.some.inj texts.symm)
  rw [contentAt] at holds
  rw [readText, located]
  dsimp only
  rw [nodeAt?] at holds present
  split at present
  next index found =>
    rw [found] at holds ⊢
    dsimp only at holds ⊢
    rw [holds, Content.text_ofText]
  next => exact absurd rfl present

/-- Writing the stylesheet of a directory changes nothing else. -/
theorem grows_writeStylesheet
    {disk written : Disk}
    (orderly : disk.IsOrderly)
    {directory : Location}
    (proper : directory.IsProper)
    (around : disk.entryAt? directory = some .directory)
    {source : Option Path}
    (writes : Stylesheet.write disk (Location.path directory) source =
      .ok written) :
    Grows (· = directory ++ [Stylesheet.fileName]) disk written := by
  have isOutput : Location.IsOutput (directory ++ [Stylesheet.fileName]) :=
    .inr List.getLast?_concat
  have spells := proper.spells_join
    (show Path.IsProper Stylesheet.fileName.toList from
      ⟨by decide, by decide, by decide⟩)
  replace around : disk.entryAt?
      (directory ++ [Stylesheet.fileName]).dropLast = some .directory := by
    rwa [List.dropLast_concat]
  obtain ⟨file, created, change, creates, rfl⟩ := Stylesheet.creates_of_write writes
  obtain ⟨index, made⟩ := creates_of_createFile orderly isOutput spells around creates
  rw [made.file]
  exact made.grows.trans
    (grows_changeFile made.grows.orderly isOutput made.found change)

end Disk
end NotePress
