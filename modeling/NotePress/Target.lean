import NotePress.Path

/-!
# Link targets

A directive names other documents by targets, which are texts with slashes. A
target with the extension `scrip` names a source document; its page has the
extension `html` in the same place.
-/

namespace NotePress
namespace Target

/-- The extension of source documents. -/
def sourceExtension : String := "scrip"

/-- The extension of pages. -/
def pageExtension : String := "html"

/-- Whether a target names a source document. -/
def isSource (target : String) : Bool :=
  (Path.mk target).extension? == some sourceExtension

/-- The target of the page of a source document. -/
def page (target : String) : String :=
  ((Path.mk target).withExtension pageExtension).text

/-- The title of a link without one: the name of its target without the
extension, or the whole target when it has no name. -/
def title (target : String) : String :=
  (Path.mk target).stem?.getD target

end Target

/-- The page of a source document: the same path with the extension `html`. -/
def Path.page (source : Path) : Path :=
  source.withExtension Target.pageExtension

end NotePress
