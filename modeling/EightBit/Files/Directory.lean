/-
# EightBit.Files.Directory -- files around a working directory

A directory holds the contents of files by their places.  A place is counted from the working
directory, from one of the directories above it, or from the root, and names the way down from
there.  What places are counted from is a directory, and so is a place with a file further down;
nothing else is.

A path is followed part by part (`Directory.follow`).  Every part but the last has to lead to a
directory.  The last is the entry to read or write, whether there is one or not, so its name is
judged when it is looked up; only when a file is to be created is a slash behind it refused first,
for that would make it a directory.

`find?_put_self` and `find?_put_of_ne` give the file found at each place after one is put, and
`read_of_write` says that what is written to a path is read from it.
-/
import EightBit.Files.Path

namespace EightBit

set_option autoImplicit false

/-- Why a file cannot be read or written. -/
inductive FileError where
  | notFound
  /-- The path leads on from a file. -/
  | notDirectory
  | isDirectory
  /-- A name or the whole path is longer than the system takes. -/
  | nameTooLong
  /-- The contents are no text. -/
  | invalidText
  | other (message : String)
  deriving DecidableEq, Repr

def FileError.message : FileError → String
  | notFound => "No such file or directory (os error 2)"
  | notDirectory => "Not a directory (os error 20)"
  | isDirectory => "Is a directory (os error 21)"
  | nameTooLong => "File name too long (os error 36)"
  | invalidText => "stream did not contain valid UTF-8"
  | other message => message

/-! ## Places -/

/-- Where a place is counted from. -/
inductive Base where
  /-- The directory so many levels above the working directory. -/
  | above (levels : Nat)
  /-- The directory above all others. -/
  | root
  deriving DecidableEq, Repr

/-- A place: where it is counted from, and the names on the way down to it. -/
structure Place where
  base : Base := .above 0
  names : List (List Char) := []
  deriving DecidableEq, Repr

namespace Place

/-- The place of a name in the directory at a place. -/
def child (place : Place) (name : List Char) : Place :=
  { place with names := place.names ++ [name] }

/-- The directory above a directory; the root is above itself. -/
def parent (place : Place) : Place :=
  match place.base, place.names with
  | .above levels, [] => { base := .above (levels + 1) }
  | base, names => { base, names := names.dropLast }

/-- Whether a place is further down than another. -/
def isBelow (place upper : Place) : Bool :=
  place.base = upper.base && upper.names.isPrefixOf place.names && place.names != upper.names

end Place

/-- What a path leads to. -/
inductive Target where
  | directory
  /-- The entry at a place; there need not be one. -/
  | entry (place : Place)
  deriving DecidableEq, Repr

/-! ## Directories -/

/-- The files around a working directory. -/
structure Directory where
  files : List (Place × ByteArray) := []

namespace Directory

def find? (d : Directory) (place : Place) : Option ByteArray :=
  d.files.lookup place

/-- Whether there is a directory at a place. -/
def holdsDirectory (d : Directory) (place : Place) : Bool :=
  place.names = [] || d.files.any fun (file, _) => file.isBelow place

def longestName : Nat := 255

def longestPath : Nat := 4095

/-- Whether nothing but slashes is left of a path. -/
def isSlashes (rest : List (List Char)) : Bool :=
  rest ≠ [] && rest.all (· = [])

/-- What the parts of a path lead to from the directory at a place. -/
def follow (d : Directory) (creating : Bool) (place : Place) :
    List (List Char) → Except FileError Target
  | [] => .ok .directory
  | part :: rest =>
    if Path.isIdle part then d.follow creating place rest
    else if part = Path.up then d.follow creating place.parent rest
    else if creating && isSlashes rest then .error .isDirectory
    else if longestName < Line.byteLength part then .error .nameTooLong
    else if rest = [] then .ok (.entry (place.child part))
    else if d.holdsDirectory (place.child part) then d.follow creating (place.child part) rest
    else if (d.find? (place.child part)).isSome then .error .notDirectory
    else .error .notFound

/-- What a path leads to. -/
def resolve (d : Directory) (creating : Bool) (path : String) : Except FileError Target :=
  if longestPath < path.utf8ByteSize then .error .nameTooLong
  else
    match path.toList with
    | [] => .error .notFound
    | '/' :: rest => d.follow creating { base := .root } (Path.parts rest)
    | chars => d.follow creating {} (Path.parts chars)

/-- The contents of the file a path leads to. -/
def read (d : Directory) (path : String) : Except FileError ByteArray :=
  match d.resolve false path with
  | .error e => .error e
  | .ok .directory => .error .isDirectory
  | .ok (.entry place) =>
    match d.find? place with
    | some contents => .ok contents
    | none => .error (if d.holdsDirectory place then .isDirectory else .notFound)

/-- The directory with `contents` in the file at a place. -/
def put (d : Directory) (place : Place) (contents : ByteArray) : Directory :=
  ⟨(place, contents) :: d.files.filter (·.1 != place)⟩

/-- The directory with `contents` in the file a path leads to. -/
def write (d : Directory) (path : String) (contents : ByteArray) : Except FileError Directory :=
  match d.resolve true path with
  | .error e => .error e
  | .ok .directory => .error .isDirectory
  | .ok (.entry place) =>
    if d.holdsDirectory place then .error .isDirectory else .ok (d.put place contents)

@[simp] theorem find?_put_self (d : Directory) (place : Place) (contents : ByteArray) :
    (d.put place contents).find? place = some contents := by
  simp [put, find?]

theorem find?_put_of_ne (d : Directory) {place other : Place} (ne : other ≠ place)
    (contents : ByteArray) : (d.put place contents).find? other = d.find? other := by
  simp only [put, find?, List.lookup_cons, beq_eq_false_iff_ne.2 ne]
  induction d.files with
  | nil => rfl
  | cons file rest ih =>
    obtain ⟨found, bytes⟩ := file
    by_cases h : found = place
    · simpa [h, List.lookup_cons, beq_eq_false_iff_ne.2 ne] using ih
    · by_cases h' : other = found
      · simp [h, h']
      · simpa [h, List.lookup_cons, beq_eq_false_iff_ne.2 h'] using ih

/-! ## Reading what was written -/

theorem read_eq_ok_iff {d : Directory} {path : String} {contents : ByteArray} :
    d.read path = .ok contents ↔
      ∃ place, d.resolve false path = .ok (.entry place) ∧ d.find? place = some contents := by
  unfold read
  split
  · next failed => simp [failed]
  · next leads => simp [leads]
  · next place leads =>
    rw [leads]
    cases found : d.find? place <;> simp [found]

theorem exists_of_write {d d' : Directory} {path : String} {contents : ByteArray}
    (h : d.write path contents = .ok d') :
    ∃ place, d.resolve true path = .ok (.entry place) ∧ d' = d.put place contents := by
  unfold write at h
  split at h
  · cases h
  · cases h
  · next place leads =>
    split at h
    · cases h
    · exact ⟨place, leads, (Except.ok.inj h).symm⟩

/-- Putting a file takes no directory away. -/
theorem holdsDirectory_put {d : Directory} {upper : Place} (h : d.holdsDirectory upper = true)
    (place : Place) (contents : ByteArray) :
    (d.put place contents).holdsDirectory upper = true := by
  simp only [holdsDirectory, Bool.or_eq_true, decide_eq_true_eq, List.any_eq_true] at h ⊢
  rcases h with top | ⟨file, found, below⟩
  · exact .inl top
  · right
    by_cases same : file.1 = place
    · exact ⟨(place, contents), List.mem_cons_self, same ▸ below⟩
    · exact ⟨file, List.mem_cons_of_mem _ (by simp [found, same]), below⟩

/-- What parts lead to, they still lead to when a file has been put somewhere. -/
theorem follow_put {d : Directory} {creating : Bool} {start : Place} {parts : List (List Char)}
    {target : Target} (h : d.follow creating start parts = .ok target) (place : Place)
    (contents : ByteArray) :
    (d.put place contents).follow false start parts = .ok target := by
  induction parts generalizing start with
  | nil => exact h
  | cons part rest ih =>
    simp only [follow] at h ⊢
    split at h
    · next idle => simpa [idle] using ih h
    · next moves =>
      split at h
      · next upward =>
        rw [if_neg moves, if_pos upward]
        exact ih h
      · next named =>
        simp only [moves, named, Bool.false_and]
        split at h
        · cases h
        · split at h
          · cases h
          · next short =>
            split at h
            · next last => simpa [short, last] using h
            · next goesOn =>
              split at h
              · next held => simpa [short, goesOn, holdsDirectory_put held] using ih h
              · split at h <;> cases h

theorem resolve_put {d : Directory} {creating : Bool} {path : String} {target : Target}
    (h : d.resolve creating path = .ok target) (place : Place) (contents : ByteArray) :
    (d.put place contents).resolve false path = .ok target := by
  unfold resolve at h ⊢
  split at h
  · cases h
  · next short =>
    simp only [short, if_false]
    split at h
    · cases h
    · exact follow_put h place contents
    · exact follow_put h place contents

/-- What is written to a path is read from it. -/
theorem read_of_write {d d' : Directory} {path : String} {contents : ByteArray}
    (h : d.write path contents = .ok d') : d'.read path = .ok contents := by
  obtain ⟨place, leads, rfl⟩ := exists_of_write h
  exact read_eq_ok_iff.2 ⟨place, resolve_put leads place contents, find?_put_self ..⟩

end Directory

end EightBit
