import Mathlib.Data.List.Basic
import NotePress.Proofs.Path.Spelling
import NotePress.Stylesheet

/-!
# The places of documents and outputs

A document has the extension of source documents. What is made from it lies beside
it: its page, under its name with another extension, and a stylesheet. By their
names outputs are told from documents, and pages of different documents from one
another.
-/

namespace NotePress

namespace Path

/-! ## Extensions of names -/

/-- A name without a point has no part after one. -/
theorem splitLastPoint_eq_none
    {name : List Char}
    (pointless : '.' ∉ name) :
    splitLastPoint name = none := by
  induction name with
  | nil => rfl
  | cons first others inductionHypothesis =>
      rw [List.mem_cons, not_or] at pointless
      obtain ⟨notPoint, rest⟩ := pointless
      rw [splitLastPoint, inductionHypothesis rest]
      dsimp only
      rw [if_neg (Ne.symm notPoint)]

/-- A name is cut at its last point. -/
theorem splitLastPoint_append
    (stem : List Char)
    {extension : List Char}
    (pointless : '.' ∉ extension) :
    splitLastPoint (stem ++ '.' :: extension) = some (stem, extension) := by
  induction stem with
  | nil =>
      rw [List.nil_append, splitLastPoint, splitLastPoint_eq_none pointless]
      rfl
  | cons first others inductionHypothesis =>
      rw [List.cons_append, splitLastPoint, inductionHypothesis]

/-- The extension of a name is what comes after its last point, unless nothing comes
before it. -/
theorem extensionOf_append
    {stem extension : List Char}
    (nonempty : stem ≠ [])
    (pointless : '.' ∉ extension) :
    extensionOf? (stem ++ '.' :: extension) = some extension := by
  obtain ⟨first, others, rfl⟩ := List.exists_cons_of_ne_nil nonempty
  rw [extensionOf?, splitLastPoint_append _ pointless]

/-- A name with an extension is its stem, a point and the extension. -/
theorem eq_of_extensionOf
    {name extension : List Char}
    (found : extensionOf? name = some extension) :
    name = stemOf name ++ '.' :: extension := by
  rw [extensionOf?] at found
  split at found
  next first before after cut =>
    cases found
    rw [stemOf, cut]
    exact append_splitLastPoint cut
  next => cases found

/-- A name has a stem. -/
theorem stemOf_ne_nil
    {name : List Char}
    (nonempty : name ≠ []) :
    stemOf name ≠ [] := by
  rw [stemOf]
  split
  · exact List.cons_ne_nil _ _
  · exact nonempty

/-- The name of a page has the extension of pages. -/
theorem extensionOf_pageName
    {name : List Char}
    (nonempty : name ≠ []) :
    extensionOf? (pageName name) = some Target.pageExtension.toList :=
  extensionOf_append (stemOf_ne_nil nonempty) (by decide)

/-- A name without an extension is its own stem. -/
theorem stemOf_of_no_extension
    {name : List Char}
    (none : extensionOf? name = none) :
    stemOf name = name := by
  rw [extensionOf?] at none
  split at none
  next => cases none
  next other =>
    rw [stemOf]
    split
    next first before after cut => exact absurd cut (other first before after)
    next => rfl

/-- Names with the same extension, or both without one, have different pages. -/
theorem eq_of_pageName
    {left right : List Char}
    (extension : extensionOf? left = extensionOf? right)
    (same : pageName left = pageName right) :
    left = right := by
  have stems : stemOf left = stemOf right := List.append_cancel_right same
  cases found : extensionOf? left with
  | none =>
      rw [found] at extension
      rwa [stemOf_of_no_extension found,
        stemOf_of_no_extension extension.symm] at stems
  | some text =>
      rw [found] at extension
      rw [eq_of_extensionOf found, eq_of_extensionOf extension.symm, stems]

/-- A name is one segment. -/
theorem segmentsOf_clean
    {name : List Char}
    (clean : '/' ∉ name) :
    segmentsOf name = [name] := by
  have whole := segmentsOf_textOf (List.cons_ne_nil name [])
    (List.forall_mem_singleton.mpr clean)
  rwa [textOf_singleton] at whole

/-- A name after a slash is one more segment. -/
theorem segmentsOf_append
    (text : List Char)
    {name : List Char}
    (clean : '/' ∉ name) :
    segmentsOf (text ++ '/' :: name) = segmentsOf text ++ [name] := by
  have single : segmentsOf name = [name] := segmentsOf_clean clean
  have cut := List.splitOnP_append_cons (p := (· == '/')) text name
    (beq_self_eq_true '/')
  rw [segmentsOf, Text.splitAt_eq_splitOn, List.splitOn] at single
  rw [segmentsOf, Text.splitAt_eq_splitOn, List.splitOn, cut, single,
    segmentsOf, Text.splitAt_eq_splitOn, List.splitOn]

end Path

namespace Location

/-! ## Documents and outputs -/

/-- The extension of the name at a location. -/
def extension? (location : Location) : Option (List Char) :=
  location.getLast?.bind fun name => Path.extensionOf? name.toList

/-- A location with the extension of source documents. -/
def IsDocument (location : Location) : Prop :=
  extension? location = some Target.sourceExtension.toList

/-- A location with the extension of pages, or with the name of stylesheets. -/
def IsOutput (location : Location) : Prop :=
  extension? location = some Target.pageExtension.toList ∨
    location.getLast? = some Stylesheet.fileName

instance : DecidablePred IsDocument := fun location =>
  inferInstanceAs (Decidable (extension? location = _))

instance : DecidablePred IsOutput := fun location =>
  inferInstanceAs (Decidable (extension? location = _ ∨ _))

/-- The location of the page of a document. -/
def page (location : Location) : Location :=
  match location.getLast? with
  | none => []
  | some name =>
      location.dropLast ++ [String.ofList (Path.pageName name.toList)]

/-- The location of the stylesheet beside a document. -/
def stylesheet (location : Location) : Location :=
  location.dropLast ++ [Stylesheet.fileName]

/-- The page of a document lies in the directory of the document. -/
theorem page_concat (directory : Location) (name : String) :
    page (directory ++ [name]) =
      directory ++ [String.ofList (Path.pageName name.toList)] := by
  rw [page, List.getLast?_concat, List.dropLast_concat]

/-- The extension of a location is that of its name. -/
theorem extension_concat (directory : Location) (name : String) :
    extension? (directory ++ [name]) = Path.extensionOf? name.toList := by
  rw [extension?, List.getLast?_concat]
  rfl

/-- A document has a name with the extension of documents. -/
theorem IsDocument.eq_concat
    {location : Location}
    (isDocument : IsDocument location) :
    ∃ directory name, location = directory ++ [name] ∧
      Path.extensionOf? name.toList = some Target.sourceExtension.toList := by
  rcases List.eq_nil_or_concat' location with rfl | ⟨directory, name, rfl⟩
  · cases isDocument
  · exact ⟨directory, name, rfl,
      (extension_concat directory name).symm.trans isDocument⟩

/-- No document is an output. -/
theorem IsDocument.not_isOutput
    {location : Location}
    (isDocument : IsDocument location) :
    ¬IsOutput location := by
  rintro (isPage | isStylesheet)
  · rw [IsDocument, isPage] at isDocument
    exact absurd isDocument (by decide)
  · rw [IsDocument, extension?, isStylesheet] at isDocument
    exact absurd isDocument (by decide)

theorem extension_page_concat
    (directory : Location)
    {name : String}
    (nonempty : name.toList ≠ []) :
    extension? (page (directory ++ [name])) =
      some Target.pageExtension.toList := by
  rw [page_concat, extension_concat, String.toList_ofList,
    Path.extensionOf_pageName nonempty]

/-- The page of a document has the extension of pages. -/
theorem IsDocument.extension_page
    {location : Location}
    (isDocument : IsDocument location) :
    extension? (page location) = some Target.pageExtension.toList := by
  obtain ⟨directory, name, rfl, extension⟩ := isDocument.eq_concat
  refine extension_page_concat directory fun empty => ?_
  rw [empty] at extension
  cases extension

/-- The page of a document is an output. -/
theorem IsDocument.isOutput_page
    {location : Location}
    (isDocument : IsDocument location) :
    IsOutput (page location) :=
  .inl isDocument.extension_page

/-- A stylesheet is an output. -/
theorem isOutput_stylesheet (location : Location) :
    IsOutput (stylesheet location) :=
  .inr List.getLast?_concat

/-- No page of a document is a stylesheet. -/
theorem IsDocument.page_ne_stylesheet
    {location : Location}
    (isDocument : IsDocument location)
    (other : Location) :
    page location ≠ stylesheet other := by
  intro same
  have extension := isDocument.extension_page
  rw [same, stylesheet, extension_concat] at extension
  exact absurd extension (by decide)

/-- A page lies in the directory of what it is made from. -/
theorem dropLast_page (location : Location) :
    (page location).dropLast = location.dropLast := by
  rcases List.eq_nil_or_concat' location with rfl | ⟨directory, name, rfl⟩
  · rfl
  · rw [page_concat, List.dropLast_concat, List.dropLast_concat]

/-- What is made from a file has the extension of pages, whatever extension the file
has. -/
theorem IsProper.isOutput_page
    {location : Location}
    (proper : location.IsProper)
    (nonempty : location ≠ []) :
    IsOutput (page location) := by
  obtain ⟨directory, name, rfl⟩ :=
    (List.eq_nil_or_concat' location).resolve_left nonempty
  refine .inl (extension_page_concat directory fun empty => ?_)
  have notIdle := (proper name (List.mem_append_right _
    List.mem_cons_self)).notIdle
  rw [empty] at notIdle
  cases notIdle

/-- Places with the same extension, or both without one, have different pages. -/
theorem eq_of_page
    {left right : Location}
    (extension : extension? left = extension? right)
    (same : page left = page right) :
    left = right := by
  rcases List.eq_nil_or_concat' left with rfl | ⟨leftDirectory, leftName, rfl⟩ <;>
    rcases List.eq_nil_or_concat' right with
      rfl | ⟨rightDirectory, rightName, rfl⟩
  · rfl
  · rw [page_concat] at same
    exact absurd same.symm (List.append_ne_nil_of_right_ne_nil _
      (List.cons_ne_nil _ _))
  · rw [page_concat] at same
    exact absurd same (List.append_ne_nil_of_right_ne_nil _
      (List.cons_ne_nil _ _))
  · rw [page_concat, page_concat] at same
    rw [extension_concat, extension_concat] at extension
    obtain ⟨rfl, names⟩ := List.append_inj' same rfl
    have pages := String.ofList_injective (List.cons.inj names).1
    rw [String.toList_injective (Path.eq_of_pageName extension pages)]

/-- Different documents have different pages. -/
theorem IsDocument.eq_of_page
    {left right : Location}
    (leftIs : IsDocument left)
    (rightIs : IsDocument right)
    (same : page left = page right) :
    left = right :=
  Location.eq_of_page (leftIs.trans rightIs.symm) same

/-! ## Paths of outputs -/

/-- The path of a page spells the names of its location. -/
theorem IsProper.spells_page
    {location : Location}
    (proper : location.IsProper)
    (nonempty : location ≠ []) :
    Path.Spells (Location.path location).page
      ((page location).map String.toList) := by
  obtain ⟨directory, name, rfl⟩ :=
    (List.eq_nil_or_concat' location).resolve_left nonempty
  have spells := proper.spells
  rw [List.map_append, List.map_singleton] at spells
  rw [page_concat, List.map_append, List.map_singleton, String.toList_ofList]
  exact spells.page

/-- The path of a page tells the place of the page. -/
theorem page_eq_of_path
    {left right : Location}
    (leftProper : left.IsProper)
    (rightProper : right.IsProper)
    (leftNonempty : left ≠ [])
    (rightNonempty : right ≠ [])
    (same : (Location.path left).page = (Location.path right).page) :
    page left = page right := by
  have leftNames := (leftProper.spells_page leftNonempty).components
  have rightNames := (rightProper.spells_page rightNonempty).components
  rw [same, rightNames] at leftNames
  exact (List.map_injective_iff.mpr fun _ _ => String.toList_injective)
    (List.cons.inj leftNames).2.symm

/-- The path of a location is its names, each after a slash. -/
theorem toList_path (location : Location) :
    (Location.path location).text.toList =
      '/' :: Path.textOf (location.map String.toList) := by
  rw [Location.path, String.toList_append, String.toList_intercalate]
  rfl

/-- The path of a directory other than the root does not end in a slash. -/
theorem getLast_path
    (directory : Location)
    {name : String}
    (proper : Path.IsProper name.toList) :
    (Location.path (directory ++ [name])).text.toList.getLast? ≠ some '/' := by
  have ends : ∃ before, (Location.path (directory ++ [name])).text.toList =
      before ++ name.toList := by
    rw [toList_path, List.map_append, List.map_singleton]
    by_cases root : directory.map String.toList = []
    · rw [root, List.nil_append, Path.textOf_singleton]
      exact ⟨['/'], rfl⟩
    · rw [Path.textOf_concat root]
      exact ⟨'/' :: (Path.textOf (directory.map String.toList) ++ ['/']),
        by simp⟩
  obtain ⟨before, text⟩ := ends
  have nonempty : name.toList ≠ [] := by
    intro empty
    have busy := proper.notIdle
    rw [empty] at busy
    cases busy
  rw [text, List.getLast?_append, List.getLast?_eq_some_getLast nonempty,
    Option.some_or]
  intro slash
  refine proper.clean ?_
  rw [← Option.some.inj slash]
  exact List.getLast_mem nonempty

/-- A name read from a directory. -/
theorem IsProper.spells_join
    {directory : Location}
    (proper : directory.IsProper)
    {name : String}
    (nameProper : Path.IsProper name.toList) :
    Path.Spells (Path.join (Location.path directory) ⟨name⟩)
      ((directory ++ [name]).map String.toList) := by
  have relative : ¬(Path.mk name).isAbsolute = true := by
    intro absolute
    rw [Path.isAbsolute, beq_iff_eq] at absolute
    exact nameProper.clean (List.mem_of_head? absolute)
  rw [Path.join, if_neg relative, List.map_append, List.map_singleton]
  rcases List.eq_nil_or_concat' directory with rfl | ⟨around, last, rfl⟩
  · refine ⟨List.forall_mem_singleton.mpr nameProper, .inr ⟨by simp, ?_⟩⟩
    have root : (Location.path []).text.toList.getLast? = some '/' := by decide
    rw [root, beq_self_eq_true, Bool.or_true, if_pos rfl, String.toList_append,
      toList_path, List.map_nil, List.nil_append,
      Path.textOf_cons [] (List.cons_ne_nil _ _), Path.textOf_singleton]
    rfl
  · have busy : ¬((Location.path (around ++ [last])).text.isEmpty ||
        (Location.path (around ++ [last])).text.toList.getLast? ==
          some '/') = true := by
      rw [Bool.or_eq_true, not_or, beq_iff_eq]
      refine ⟨fun empty => ?_, getLast_path around
        (proper last (List.mem_append_right _ List.mem_cons_self))⟩
      have text := toList_path (around ++ [last])
      rw [String.isEmpty_iff.mp empty] at text
      cases text
    rw [if_neg busy, ← @String.ofList_toList name]
    have entered := proper.spells.enter nameProper
    rwa [String.toList_ofList]

end Location

end NotePress
