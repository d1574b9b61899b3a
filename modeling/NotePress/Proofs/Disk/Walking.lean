import NotePress.Proofs.Disk.LinkFree
import NotePress.Proofs.Path.Places

/-!
# Walks with links

A walk along a path goes on at the target of every link that it comes to. It can be
cut where a segment ends, so the path of a name in a directory leads to that name in
the place of the directory. Along names that are no links it takes them one by one.
Where it leads to is decided by the directories and links that are there.
-/

namespace NotePress
namespace Disk

section Walks

variable {disk : Disk}

/-! ## Single steps -/

section Steps

variable
  {location : Location}
  {segment : List Char}
  (around : disk.entryAt? location = some .directory)
  (busy : ¬Path.isIdle segment = true)
  (notUp : ¬segment = ['.', '.'])
  (short : ¬maximalName < (String.ofList segment).utf8ByteSize)
  (others : List (List Char))

include around busy notUp short

/-- A walk stops at a link. -/
theorem walkToLink_of_link
    {target : String}
    (linked : disk.entryAt? (location ++ [String.ofList segment]) =
      some (.link target)) :
    disk.walkToLink true location (segment :: others) =
      .link location target others := by
  rw [walkToLink, around]
  dsimp only
  rw [if_neg busy, if_neg notUp, if_neg short, linked]
  dsimp only
  rw [Bool.not_true, Bool.and_false]
  rfl

/-- A walk goes on at a name that is no link. -/
theorem walkToLink_of_unlinked
    (unlinked : ∀ target, disk.entryAt? (location ++ [String.ofList segment]) ≠
      some (.link target)) :
    disk.walkToLink true location (segment :: others) =
      disk.walkToLink true (location ++ [String.ofList segment]) others := by
  rw [walkToLink, around]
  dsimp only
  rw [if_neg busy, if_neg notUp, if_neg short]
  split
  next target linked => exact absurd linked (unlinked target)
  next => rfl

end Steps

/-! ## Walks in parts -/

/-- A walk up to a link, with more segments behind. -/
theorem walkToLink_append
    (disk : Disk)
    (location : Location)
    (segments rest : List (List Char)) :
    disk.walkToLink true location (segments ++ rest) =
      match disk.walkToLink true location segments with
      | .at reached => disk.walkToLink true reached rest
      | .link directory target left => .link directory target (left ++ rest)
      | .failed failure => .failed failure := by
  induction segments generalizing location with
  | nil => rfl
  | cons segment others inductionHypothesis =>
      rw [List.cons_append, walkToLink, walkToLink]
      split
      · rfl
      · split
        · exact inductionHypothesis location
        · split
          · exact inductionHypothesis location.dropLast
          · split
            · rfl
            · dsimp only
              split
              · rw [Bool.not_true, Bool.and_false, Bool.and_false]
                rfl
              · exact inductionHypothesis _
      · rfl

/-- Behind the place that a walk leads to, more segments are walked along, with as
many links as are left. -/
theorem walk_append
    (disk : Disk)
    (links : Nat)
    (location : Location)
    (segments : List (List Char)) :
    ∃ arrival : Except Failure (Nat × Location),
      disk.walk true links location segments = arrival.map Prod.snd ∧
        ∀ rest, disk.walk true links location (segments ++ rest) =
          arrival.bind fun reached => disk.walk true reached.1 reached.2 rest := by
  induction links generalizing location segments with
  | zero =>
      cases arrives : disk.walkToLink true location segments with
      | «at» reached =>
          refine ⟨.ok (0, reached), by rw [walk, arrives]; rfl, fun rest => ?_⟩
          rw [walk, walkToLink_append, arrives, Except.bind, walk]
      | failed failure =>
          refine ⟨.error failure, by rw [walk, arrives]; rfl, fun rest => ?_⟩
          rw [walk, walkToLink_append, arrives, Except.bind]
      | link directory target left =>
          refine ⟨.error .tooManyLinks, by rw [walk, arrives]; rfl,
            fun rest => ?_⟩
          rw [walk, walkToLink_append, arrives, Except.bind]
  | succ links inductionHypothesis =>
      cases arrives : disk.walkToLink true location segments with
      | «at» reached =>
          refine ⟨.ok (links + 1, reached), by rw [walk, arrives]; rfl,
            fun rest => ?_⟩
          rw [walk, walkToLink_append, arrives, Except.bind, walk]
      | failed failure =>
          refine ⟨.error failure, by rw [walk, arrives]; rfl, fun rest => ?_⟩
          rw [walk, walkToLink_append, arrives, Except.bind]
      | link directory target left =>
          obtain ⟨arrival, leads, goesOn⟩ := inductionHypothesis
            (if Path.isAbsolute ⟨target⟩ then [] else directory)
            (Path.segmentsOf target.toList ++ left)
          refine ⟨arrival, by rw [walk, arrives]; exact leads, fun rest => ?_⟩
          rw [walk, walkToLink_append, arrives]
          dsimp only
          rw [← List.append_assoc]
          exact goesOn rest

/-- A walk along one name that is no link. -/
theorem walk_name
    {links : Nat}
    {location reached : Location}
    {name : String}
    (proper : Path.IsProper name.toList)
    (unlinked : ∀ target,
      disk.entryAt? (location ++ [name]) ≠ some (.link target))
    (leads : disk.walk true links location [name.toList] = .ok reached) :
    reached = location ++ [name] := by
  have arrives : disk.walkToLink true location [name.toList] =
        .at (location ++ [name]) ∨
      ∃ failure, disk.walkToLink true location [name.toList] =
        .failed failure := by
    rw [walkToLink, if_neg (Bool.eq_false_iff.mp proper.notIdle),
      if_neg proper.notUp, String.ofList_toList]
    split
    · exact .inr ⟨_, rfl⟩
    · split
      · exact .inr ⟨_, rfl⟩
      · dsimp only
        split
        next target found => exact absurd found (unlinked target)
        next => exact .inl rfl
    · exact .inr ⟨_, rfl⟩
  rw [walk] at leads
  rcases arrives with arrives | ⟨failure, fails⟩
  · rw [arrives] at leads
    exact (Except.ok.inj leads).symm
  · rw [fails] at leads
    cases leads

theorem walk_idle
    {links : Nat}
    {location reached : Location}
    (leads : disk.walk true links location [[]] = .ok reached) :
    reached = location := by
  have idle : Path.isIdle [] = true := rfl
  rw [walk, walkToLink, if_pos idle, walkToLink] at leads
  split at leads
  next arrives =>
    cases leads
    split at arrives
    · cases arrives
    · exact (Arrival.at.inj arrives).symm
    · cases arrives
  next => cases leads
  next arrives =>
    split at arrives <;> cases arrives

theorem walk_of_locate
    {path : Path}
    {location : Location}
    (found : disk.locate path = .ok location) :
    path.text ≠ "" ∧
      disk.walk true maximalLinks
        (if path.isAbsolute then [] else disk.workingDirectory)
        (Path.segmentsOf path.text.toList) = .ok location := by
  rw [locate, locateFrom] at found
  split at found
  next => cases found
  next nonempty =>
    split at found
    next => cases found
    next => exact ⟨fun empty => nonempty (String.isEmpty_iff.mpr empty), found⟩

/-! ## Walks on another disk -/

/-- A disk on which walks go as on another one: it has the directories of that disk, and
the same links. -/
structure KeepsWays (left right : Disk) : Prop where
  workingDirectory : right.workingDirectory = left.workingDirectory
  directory : ∀ {location}, left.entryAt? location = some .directory →
    right.entryAt? location = some .directory
  link : ∀ {location target}, left.entryAt? location = some (.link target) ↔
    right.entryAt? location = some (.link target)

namespace KeepsWays

variable
  {left right : Disk}
  (keeps : KeepsWays left right)

include keeps

theorem walkToLink
    (location : Location)
    (segments : List (List Char)) :
    (∃ failure, left.walkToLink true location segments = .failed failure) ∨
      right.walkToLink true location segments =
        left.walkToLink true location segments := by
  induction segments generalizing location with
  | nil => exact .inr rfl
  | cons segment others inductionHypothesis =>
      by_cases found : left.entryAt? location = some .directory
      · have foundRight := keeps.directory found
        by_cases idle : Path.isIdle segment = true
        · rw [Disk.walkToLink, Disk.walkToLink, found, foundRight]
          dsimp only
          rw [if_pos idle, if_pos idle]
          exact inductionHypothesis location
        by_cases up : segment = ['.', '.']
        · rw [Disk.walkToLink, Disk.walkToLink, found, foundRight]
          dsimp only
          rw [if_neg idle, if_neg idle, if_pos up, if_pos up]
          exact inductionHypothesis location.dropLast
        by_cases long : maximalName < (String.ofList segment).utf8ByteSize
        · rw [Disk.walkToLink, found]
          dsimp only
          rw [if_neg idle, if_neg up, if_pos long]
          exact .inl ⟨_, rfl⟩
        by_cases linked : ∃ target, left.entryAt?
            (location ++ [String.ofList segment]) = some (.link target)
        · obtain ⟨target, linked⟩ := linked
          rw [walkToLink_of_link found idle up long others linked,
            walkToLink_of_link foundRight idle up long others
              (keeps.link.mp linked)]
          exact .inr rfl
        · rw [walkToLink_of_unlinked found idle up long others
              fun target here => linked ⟨target, here⟩,
            walkToLink_of_unlinked foundRight idle up long others
              fun target here => linked ⟨target, keeps.link.mpr here⟩]
          exact inductionHypothesis _
      · rw [Disk.walkToLink]
        split
        · exact .inl ⟨_, rfl⟩
        next same => exact absurd same found
        · exact .inl ⟨_, rfl⟩

theorem walk
    {links : Nat}
    {location reached : Location}
    {segments : List (List Char)}
    (leads : left.walk true links location segments = .ok reached) :
    right.walk true links location segments = .ok reached := by
  induction links generalizing location segments with
  | zero =>
      rw [Disk.walk] at leads ⊢
      rcases keeps.walkToLink location segments with ⟨failure, fails⟩ | same
      · rw [fails] at leads
        cases leads
      · rw [same]
        exact leads
  | succ links inductionHypothesis =>
      rw [Disk.walk] at leads ⊢
      rcases keeps.walkToLink location segments with ⟨failure, fails⟩ | same
      · rw [fails] at leads
        cases leads
      · rw [same]
        split at leads
        · exact leads
        · exact leads
        · exact inductionHypothesis leads

/-- Paths lead to the same places. -/
theorem locate
    {path : Path}
    {location : Location}
    (found : left.locate path = .ok location) :
    right.locate path = .ok location := by
  have leads := (walk_of_locate found).2
  rw [← keeps.workingDirectory] at leads
  rw [Disk.locate, locateFrom] at found ⊢
  split at found
  next => cases found
  next nonempty =>
    split at found
    next => cases found
    next short =>
      rw [if_neg nonempty, if_neg short]
      exact keeps.walk leads

end KeepsWays

/-- The path of a name in a directory leads to the place of the name in the place of
the directory, unless the name is a link. -/
theorem locate_join
    {directory : Path}
    {location reached : Location}
    {name : String}
    (found : disk.locate directory = .ok location)
    (proper : Path.IsProper name.toList)
    (unlinked : ∀ target,
      disk.entryAt? (location ++ [name]) ≠ some (.link target))
    (joined : disk.locate (Path.join directory ⟨name⟩) = .ok reached) :
    reached = location ++ [name] := by
  obtain ⟨nonempty, leads⟩ := walk_of_locate found
  obtain ⟨_, goesOn⟩ := walk_of_locate joined
  have relative : ¬(Path.mk name).isAbsolute = true := by
    intro absolute
    rw [Path.isAbsolute, beq_iff_eq] at absolute
    exact proper.clean (List.mem_of_head? absolute)
  -- A directory that ends in a slash is joined with a name without a second slash.
  obtain ⟨before, tail, text, joinedText, clean⟩ :
      ∃ before tail : List Char,
        directory.text.toList = before ++ tail ∧
        (Path.join directory ⟨name⟩).text.toList = before ++ '/' :: name.toList ∧
        (tail = [] ∨ tail = ['/']) := by
    rw [Path.join, if_neg relative]
    split
    next ends =>
      rw [Bool.or_eq_true, beq_iff_eq] at ends
      have slash := ends.resolve_left fun empty =>
        nonempty (String.isEmpty_iff.mp empty)
      obtain ⟨before, text⟩ := List.getLast?_eq_some_iff.mp slash
      refine ⟨before, ['/'], text, ?_, .inr rfl⟩
      rw [String.toList_append, text, List.append_assoc]
      rfl
    next =>
      refine ⟨directory.text.toList, [], (List.append_nil _).symm, ?_, .inl rfl⟩
      rw [String.toList_append, String.toList_append, List.append_assoc]
      rfl
  have absolute : (Path.join directory ⟨name⟩).isAbsolute =
      directory.isAbsolute := by
    have some : directory.text.toList ≠ [] := fun empty =>
      nonempty (String.toList_eq_nil_iff.mp empty)
    rw [Path.isAbsolute, Path.isAbsolute, joinedText, text]
    rcases clean with rfl | rfl
    · rw [text, List.append_nil] at some
      rw [List.append_nil, List.head?_append_of_ne_nil _ some]
    · cases before <;> rfl
  rw [absolute, joinedText, Path.segmentsOf_append before proper.clean] at goesOn
  obtain ⟨arrival, reaches, further⟩ := disk.walk_append maximalLinks
    (if directory.isAbsolute then [] else disk.workingDirectory)
    (Path.segmentsOf before)
  rw [further] at goesOn
  cases arrival with
  | error failure => cases goesOn
  | ok arrived =>
      obtain ⟨links, place⟩ := arrived
      have same : location = place := by
        rw [text] at leads
        rcases clean with rfl | rfl
        · rw [List.append_nil, reaches] at leads
          exact (Except.ok.inj leads).symm
        · rw [Path.segmentsOf_append before List.not_mem_nil, further] at leads
          exact walk_idle leads
      rw [same] at unlinked ⊢
      exact walk_name proper unlinked goesOn

/-! ## Names on the way -/

/-- A walk along names that are no links takes them one by one. -/
theorem walkToLink_names
    (disk : Disk)
    {names : List String}
    (proper : ∀ name ∈ names, Path.IsProper name.toList)
    (location : Location)
    (unlinked : ∀ before name after target, names = before ++ name :: after →
      disk.entryAt? (location ++ before ++ [name]) ≠ some (.link target)) :
    disk.walkToLink true location (names.map String.toList) =
        .at (location ++ names) ∨
      ∃ failure, disk.walkToLink true location (names.map String.toList) =
        .failed failure := by
  induction names generalizing location with
  | nil => exact .inl (by rw [List.map_nil, walkToLink, List.append_nil])
  | cons first others inductionHypothesis =>
      have firstProper := proper first List.mem_cons_self
      rw [List.map_cons, walkToLink,
        if_neg (Bool.eq_false_iff.mp firstProper.notIdle),
        if_neg firstProper.notUp, String.ofList_toList]
      split
      · exact .inr ⟨_, rfl⟩
      · split
        · exact .inr ⟨_, rfl⟩
        · have here : ∀ target, disk.entryAt? (location ++ [first]) ≠
              some (.link target) := by
            intro target
            have no := unlinked [] first others target rfl
            rwa [List.append_nil] at no
          have later := @inductionHypothesis
            (fun name member => proper name (List.mem_cons_of_mem _ member))
            (location ++ [first]) fun before name after target cut => by
              have no := unlinked (first :: before) name after target (by
                rw [cut]
                rfl)
              rwa [← List.singleton_append, ← List.append_assoc] at no
          rw [List.append_assoc, List.singleton_append] at later
          dsimp only
          split
          next target found => exact absurd found (here target)
          next => exact later
      · exact .inr ⟨_, rfl⟩

/-- A path that spells the names of a location leads there, if none of the places on
the way is a link. -/
theorem locate_of_spells
    {path : Path}
    {location reached : Location}
    (spells : Path.Spells path (location.map String.toList))
    (unlinked : ∀ before name after target, location = before ++ name :: after →
      disk.entryAt? (before ++ [name]) ≠ some (.link target))
    (found : disk.locate path = .ok reached) :
    reached = location := by
  have proper : ∀ name ∈ location, Path.IsProper name.toList :=
    fun name member => spells.proper _ (List.mem_map_of_mem member)
  have arrives := disk.walkToLink_names proper [] unlinked
  have idle : ∀ rest, disk.walkToLink true [] ([] :: rest) =
      disk.walkToLink true [] rest := by
    intro rest
    have blank : Path.isIdle [] = true := rfl
    rw [walkToLink, if_pos blank]
    rfl
  have start : disk.walkToLink true [] (Path.segmentsOf path.text.toList) =
      disk.walkToLink true [] (location.map String.toList) := by
    rcases spells.segments with segments | ⟨_, segments⟩
    · rw [segments, idle, idle]
    · rw [segments, idle]
  have leads := (walk_of_locate found).2
  rw [spells.isAbsolute, if_pos rfl, walk, start] at leads
  rcases arrives with arrives | ⟨failure, fails⟩
  · rw [arrives] at leads
    exact (Except.ok.inj leads).symm
  · rw [fails] at leads
    cases leads

/-! ## Names of the place -/

/-- Where a walk stops, names are proper, and segments hold no slashes. -/
def Arrival.IsProper : Arrival → Prop
  | .at location => location.IsProper
  | .link directory _ rest =>
      directory.IsProper ∧ ∀ segment ∈ rest, '/' ∉ segment
  | .failed _ => True

theorem isProper_walkToLink
    (disk : Disk)
    {segments : List (List Char)}
    (clean : ∀ segment ∈ segments, '/' ∉ segment)
    {location : Location}
    (proper : location.IsProper) :
    (disk.walkToLink true location segments).IsProper := by
  induction segments generalizing location with
  | nil => exact proper
  | cons segment others inductionHypothesis =>
      have rest : ∀ segment ∈ others, '/' ∉ segment :=
        fun other member => clean other (List.mem_cons_of_mem _ member)
      rw [walkToLink]
      split
      · trivial
      · split
        · exact inductionHypothesis rest proper
        next busy =>
          split
          · exact inductionHypothesis rest proper.dropLast
          next notUp =>
            split
            · trivial
            · dsimp only
              split
              · split
                next none =>
                  rw [Bool.not_true, Bool.and_false] at none
                  cases none
                next => exact ⟨proper, rest⟩
              · refine inductionHypothesis rest fun name member => ?_
                rcases List.mem_append.mp member with old | new
                · exact proper name old
                · rw [List.mem_singleton.mp new, String.toList_ofList]
                  exact Path.isProper_of_step
                    (clean segment List.mem_cons_self) busy notUp
      · trivial

theorem isProper_walk
    {links : Nat}
    {segments : List (List Char)}
    (clean : ∀ segment ∈ segments, '/' ∉ segment)
    {location reached : Location}
    (proper : location.IsProper)
    (leads : disk.walk true links location segments = .ok reached) :
    reached.IsProper := by
  induction links generalizing location segments with
  | zero =>
      have arrives := disk.isProper_walkToLink clean proper
      rw [walk] at leads
      split at leads
      next found =>
        rw [found] at arrives
        cases leads
        exact arrives
      next => cases leads
      next => cases leads
  | succ links inductionHypothesis =>
      have arrives := disk.isProper_walkToLink clean proper
      rw [walk] at leads
      split at leads
      next found =>
        rw [found] at arrives
        cases leads
        exact arrives
      next => cases leads
      next directory target rest found =>
        rw [found] at arrives
        refine inductionHypothesis ?_ ?_ leads
        · intro segment member
          rcases List.mem_append.mp member with inTarget | behind
          · exact Path.clean_of_mem_segmentsOf inTarget
          · exact arrives.2 segment behind
        · split
          · exact List.forall_mem_nil _
          · exact arrives.1

/-- Paths lead to places with proper names. -/
theorem isProper_of_locate
    (proper : disk.workingDirectory.IsProper)
    {path : Path}
    {location : Location}
    (found : disk.locate path = .ok location) :
    location.IsProper := by
  refine isProper_walk (fun segment member =>
    Path.clean_of_mem_segmentsOf member) ?_ (walk_of_locate found).2
  split
  · exact List.forall_mem_nil _
  · exact proper

end Walks

end Disk
end NotePress
