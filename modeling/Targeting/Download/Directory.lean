/-
# Directories

The data directory of an app as the cache sees it: files with their contents and folders, in
the order in which the directory lists them. The directory may also be missing. A file is put
in place in one step, from a folder for temporary files, so that a file is never incomplete.
-/

namespace Targeting.Download

/-- What a name stands for in a directory. -/
inductive Entry where
  | file (content : List UInt8)
  | folder
  deriving Repr, DecidableEq

/-- A directory; nothing if it does not exist. -/
structure Directory where
  entries : Option (List (String × Entry))
  deriving Repr, DecidableEq

namespace Directory

/-- A directory without files. -/
def empty : Directory := ⟨some []⟩

/-- A directory that does not exist. -/
def missing : Directory := ⟨none⟩

/-- The entries of a directory; none if it does not exist. -/
def listing (d : Directory) : List (String × Entry) := d.entries.getD []

/-- The entry of a name. -/
def find? (d : Directory) (name : String) : Option Entry := d.listing.lookup name

/-- The content of a file. -/
def read? (d : Directory) (name : String) : Option (List UInt8) :=
  match d.find? name with
  | some (.file content) => some content
  | _ => none

/-- Set the entry of a name, in its place or at the end. -/
def put (name : String) (entry : Entry) : List (String × Entry) → List (String × Entry)
  | [] => [(name, entry)]
  | (first, old) :: rest =>
    if first = name then (first, entry) :: rest else (first, old) :: put name entry rest

/-- Set the entry of a name, creating the directory if it does not exist. -/
def set (d : Directory) (name : String) (entry : Entry) : Directory :=
  ⟨some (put name entry d.listing)⟩

/-- Delete a file; folders stay. -/
def delete (d : Directory) (name : String) : Directory :=
  match d.find? name with
  | some (.file _) => ⟨d.entries.map fun entries => entries.filter fun entry => entry.1 != name⟩
  | _ => d

/-- The folder for temporary files. -/
def temporary : String := "tmp"

/-- Whether a text can be the name of a file. -/
def isFileName (name : String) : Bool :=
  name != "" && name != "." && name != ".." && name.utf8ByteSize ≤ 255 &&
    !name.toList.any fun c => c = '/' || c = '\x00'

/-- Put a file in place. It fails if the temporary folder cannot be created, if the name cannot be
that of a file, or if it is that of a folder; the answer says whether it succeeded. -/
def install (d : Directory) (name : String) (content : List UInt8) : Bool × Directory :=
  match d.find? temporary with
  | some (.file _) => (false, d)
  | _ =>
    let d := d.set temporary .folder
    if !isFileName name then (false, d)
    else
      match d.find? name with
      | some .folder => (false, d)
      | _ => (true, d.set name (.file content))

end Directory

end Targeting.Download
