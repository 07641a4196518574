import Unimported.Path.Normal
import Unimported.Text.Occurrence

/-!
# Resolving specifiers

A specifier names a module.  Relative to the importing directory it starts with `./` or `../`;
taken from the source root it starts with the alias `@/`; everything else names a package and is
not looked at.  The two ways of addressing lead to one form, the *target*: a path that starts
with the name of the source root.  A relative specifier that leaves the source root keeps the
normal form of its path, without the leading slash.  Whether the target exists is not asked.

## Main definitions

* `Resolver` — a source root with its name and normal form.
* `Resolver.resolve` — the target of a specifier.
-/

namespace Unimported

/-- What resolving needs to know about a source root. -/
structure Resolver where
  /-- The name of the source root; targets inside it start with this name. -/
  rootName : String
  /-- The written normal form of the source root. -/
  rootText : String
  /-- The current directory, from which relative paths are taken. -/
  cwd : List String
  deriving Repr

namespace Resolver

/-- The alias for the source root. -/
def aliasMark : String := "@/"

/-- The text with slashes in place of backslashes. -/
def forwardSlashes (s : String) : String :=
  String.ofList (s.toList.map fun c => if c = '\\' then '/' else c)

/-- The written normal form of a path. -/
def normalText (cwd : List String) (p : Path) : String := forwardSlashes (p.absolute cwd).text

/-- The resolver of a source root. -/
def ofRoot (cwd : List String) (root : Path) : Resolver := ⟨root.name, normalText cwd root, cwd⟩

/-- Whether a specifier is relative to the importing directory. -/
def isRelative (specifier : String) : Bool :=
  Text.opens "./" specifier || Text.opens "../" specifier

/-- The target of a path in normal form. -/
def targetOf (r : Resolver) (path : String) : String :=
  if path = r.rootText then r.rootName
  else if Text.opens (r.rootText ++ "/") path then
    r.rootName ++ String.ofList (path.toList.drop r.rootText.toList.length)
  else String.ofList (path.toList.dropWhile (· = '/'))

/-- The target of a specifier in a file of the given directory; none for a package. -/
def resolve (r : Resolver) (specifier : String) (origin : Path) : Option String :=
  if isRelative specifier then
    some (r.targetOf (normalText r.cwd (origin.joinText specifier)))
  else if Text.opens aliasMark specifier then
    some (r.rootName ++ "/" ++ String.ofList (specifier.toList.drop aliasMark.toList.length))
  else none

end Resolver

end Unimported
