import NotePress.Source

/-!
# Stylesheets

Every directory with a page gets a stylesheet: a copy of a given file, or the
built-in one.
-/

namespace NotePress
namespace Stylesheet

/-- The name of the stylesheet beside a page. -/
def fileName : String := "scrip.css"

/-- The built-in stylesheet. -/
def builtIn : String :=
  Text.joinLines
    ["body \x7b",
     "    margin: 2em auto;",
     "    max-width: 50em;",
     "    padding: 0 1em;",
     "\x7d",
     "",
     "blockquote \x7b",
     "    margin-bottom: 0.25em;",
     "\x7d",
     "",
     ".quotation-author \x7b",
     "    display: block;",
     "    margin: 0 0 1em 2em;",
     "    font-style: italic;",
     "    color: #666;",
     "\x7d",
     "",
     ".mention \x7b",
     "    font-weight: bold;",
     "    color: #31708f;",
     "\x7d",
     "",
     ".hashtag \x7b",
     "    color: #8a6d3b;",
     "\x7d",
     "",
     ".checkbox,",
     ".textbox \x7b",
     "    margin: 0 0.25em;",
     "\x7d",
     "",
     "pre.code-error \x7b",
     "    border-color: #a94442;",
     "    color: #a94442;",
     "\x7d",
     ""]

/-- The path of the stylesheet in a directory. -/
def pathIn (directory : Path) : Path :=
  Path.join directory ⟨fileName⟩

/-- The disk with a stylesheet in a directory. -/
def write
    (disk : Disk)
    (directory : Path)
    (source : Option Path) : Except FileError Disk :=
  let result :=
    match source with
    | none => disk.writeFile (pathIn directory) (.ofText builtIn)
    | some path => disk.copyFile path (pathIn directory)
  match source, result with
  | some path, result =>
      if disk.hasEntry path then
        result.mapError .failed
      else
        .error (.notFound path)
  | none, result => result.mapError .failed

end Stylesheet
end NotePress
