import Unimported.FileSystem
import Unimported.Import.Span
import Unimported.Journal
import Unimported.Text.Lines
import Unimported.Text.Utf8

/-!
# Reading source files

A source file is read as UTF-8, with a replacement character for each invalid part, and with every
line ending as a line feed.  A file that cannot be read has no imports; the journal says so.

## Main definitions

* `Source.textOf` — the text of a byte string.
* `Source.read` — the text of a file.
* `Source.imports` — the specifiers of a file.
-/

namespace Unimported.Source

/-- The text of a byte string. -/
def textOf (bytes : List UInt8) : String :=
  String.ofList (Text.unifyNewlines (Text.Utf8.decode bytes))

/-- The text of a file. -/
def read (fs : FileSystem) (p : Path) : Except Failure String :=
  match fs.read p with
  | .ok bytes => .ok (textOf bytes)
  | .error e => .error (e.failure fun e => .file p ("Cannot read file: " ++ e.text p))

/-- The specifiers of a file. -/
def imports (fs : FileSystem) (p : Path) : Traced (List String) :=
  match read fs p with
  | .ok text => .done (Import.specifiers text)
  | .error (.problem problem) => do
      .note .debug .imports ("Skipping unreadable file: " ++ problem.text)
      return []
  | .error (.fault fault) => .stop (.fault fault)

/-- What a file is known to import; nothing when it cannot be read. -/
def specifiers (fs : FileSystem) (p : Path) : Except Failure (List String) :=
  match read fs p with
  | .ok text => .ok (Import.specifiers text)
  | .error (.problem _) => .ok []
  | .error (.fault fault) => .error (.fault fault)

theorem outcome_imports (fs : FileSystem) (p : Path) :
    (imports fs p).outcome = specifiers fs p := by
  unfold imports specifiers
  rcases read fs p with (_ | _) | _ <;> rfl

end Unimported.Source
