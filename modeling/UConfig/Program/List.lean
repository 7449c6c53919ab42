/-
This file gives the listing of all package files in the searched directories.
-/

import UConfig.Program.FindPackage

namespace UConfig

/-- The names of the files in a directory, whose path includes its null terminator. -/
abbrev Listing := S8 → List S8

/-- The name of a listed file is its name without the extension. -/
def listName (file : S8) : S8 := if 3 < file.length then file.take (file.length - 3) else file

/-- The bytes of the name are padded to 30 columns, and a space follows. -/
def listPadding (name : S8) : S8 := List.replicate (30 - name.length) ' '.toUInt8 ++ S " "

/-- The package has been parsed, and it knows neither its path nor its directory. -/
def listTitle (global : Env) (pkg : Pkg) : Expanded :=
  (expand global pkg.env pkg.path ((pkg.field .name).getD [])).andThen
    ((Emission.print (S " - ")).andThen
      (expand global pkg.env pkg.path ((pkg.field .description).getD [])))

/-- A file that cannot be read or parsed is passed over. -/
def listFile (mapFile : MapFile) (global : Env) (all : Bool) (dir file : S8) : Expanded :=
  let name := listName file
  match mapFile (buildPath dir name) with
  | .notFound => .print []
  | .readErr => .print []
  | .ok data =>
      match parsePackage data with
      | .dupVariable _ => .print []
      | .dupField _ => .print []
      | .ok pkg =>
          let title :=
            if all then (Emission.print (listPadding name)).andThen (listTitle global pkg)
            else .print []
          (Emission.print name).andThen (title.andThen (.print (S "\n")))

def listFiles (mapFile : MapFile) (global : Env) (all : Bool) (dir : S8) : List S8 → Expanded
  | [] => .print []
  | file :: files =>
      (listFile mapFile global all dir file).andThen (listFiles mapFile global all dir files)

def list (listing : Listing) (mapFile : MapFile) (global : Env) (all : Bool) : List S8 → Expanded
  | [] => .print []
  | dir :: dirs =>
      (listFiles mapFile global all dir (listing (dir ++ [0]))).andThen
        (list listing mapFile global all dirs)

end UConfig
