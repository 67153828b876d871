/-
# EightBit.Files.Path -- names and extensions in a path

A path is a text whose parts are divided by slashes.  Empty parts and the part `.` lead nowhere; the
part `..` leads up.  The file name is the last part that leads anywhere, unless it leads up.

The extension of a file name is what stands behind its last dot, and the stem what stands before it.
A file name without a dot, or with its only dot in front, is all stem and has no extension; a dot at
the end gives the empty extension.  `joinExtension_splitExtension` puts the two together again.
-/
import EightBit.Text.Line

namespace EightBit

set_option autoImplicit false

namespace Path

/-- The parts of a path between its slashes. -/
def parts : List Char → List (List Char)
  | [] => [[]]
  | c :: rest => if c = '/' then [] :: parts rest else Line.consFirst c (parts rest)

def here : List Char := ['.']

def up : List Char := ['.', '.']

/-- Whether a part leads nowhere. -/
def isIdle (part : List Char) : Bool :=
  part = [] || part = here

/-- The parts of a path that lead anywhere. -/
def names (path : List Char) : List (List Char) :=
  (parts path).filter fun part => !isIdle part

def fileName? (path : List Char) : Option (List Char) :=
  (names path).getLast?.filter (· != up)

/-- The stem and the extension of a file name. -/
def splitExtension (name : List Char) : List Char × Option (List Char) :=
  let back := name.reverse
  let extension := (back.takeWhile (· != '.')).reverse
  match back.dropWhile (· != '.') with
  | [] | [_] => (name, none)
  | _ :: stem => (stem.reverse, some extension)

def extension? (path : List Char) : Option (List Char) :=
  (fileName? path).bind fun name => (splitExtension name).2

def withoutExtension (path : List Char) : List Char :=
  path.take (path.length - ((extension? path).getD []).length)

/-- The file name of a path with `extension` in place of its own.  There is none when taking the old
extension away leaves no file name. -/
def renamed? (path extension : List Char) : Option (List Char) :=
  (fileName? (withoutExtension path)).map fun name =>
    (splitExtension name).1 ++ '.' :: extension

def joinExtension : List Char × Option (List Char) → List Char
  | (stem, none) => stem
  | (stem, some extension) => stem ++ '.' :: extension

theorem joinExtension_splitExtension (name : List Char) :
    joinExtension (splitExtension name) = name := by
  simp only [splitExtension]
  split
  · rfl
  · rfl
  · next first stem _ h =>
    have dot : first = '.' := by
      have := List.head?_dropWhile_not (· != '.') name.reverse
      simpa [h] using this
    have whole := List.takeWhile_append_dropWhile (p := (· != '.')) (l := name.reverse)
    rw [h] at whole
    have := congrArg List.reverse whole
    simpa [dot, joinExtension] using this

end Path

end EightBit
