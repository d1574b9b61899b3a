import NotePress.Document.Hashtag
import NotePress.Target

/-!
# Directives

Some hashtags are directives: they place a link, an image, another document or
links to all documents of subfolders. A hashtag with the name of a directive and
parameters that do not fit it is refused; all other hashtags are only shown.
-/

namespace NotePress

/-- What a hashtag asks for. -/
inductive Directive
  | link (target title : String)
  | image (source : String)
  | nested (target : String)
  | autoNested
  | other
  deriving DecidableEq, Repr, Inhabited

namespace Directive

/-- A directive, unless what it points to is empty. -/
def unlessEmpty
    (target : String)
    (directive : Directive) : Option Directive :=
  if target.isEmpty then none else some directive

/-- The directive that a hashtag is. `none` when its parameters do not fit its
name. -/
def ofHashtag? (hashtag : Document.Hashtag) : Option Directive :=
  match hashtag.name, hashtag.parameters with
  | "Link", [target] =>
      unlessEmpty target (.link target (Target.title target))
  | "Link", [target, title] => unlessEmpty target (.link target title)
  | "Link", _ => none
  | "Image", [source] => unlessEmpty source (.image source)
  | "Image", _ => none
  | "Nested", [target] => unlessEmpty target (.nested target)
  | "Nested", _ => none
  | "AutoNested", [] => some .autoNested
  | "AutoNested", _ => none
  | _, _ => some .other

end Directive

end NotePress
