import Marginalia.Failure
import Marginalia.Section

/-! # Sources and the pages they become

A source is a file with the name it is shown under and the page it is written to. Names lose the
directory they all share and their extension; what is left, below the output directory, is the page.
-/
namespace Marginalia

open Text

structure Source where
  fullPath : List Char
  name : List Char
  relativeName : List Char
  outputPath : List Char
  isIndex : Bool := false
  sections : List Section := []
deriving DecidableEq

/-- Files with the names they are shown under, in order, each file once. -/
abbrev Found := List (List Char × List Char)

namespace Source

/-- Adds a file: a known one keeps its place and takes the new name. -/
def addFound (path name : List Char) : Found → Found
  | [] => [(path, name)]
  | (p, n) :: rest => if p = path then (p, name) :: rest else (p, n) :: addFound path name rest

def commonParts : List Name → List Name → List Name
  | a :: as, b :: bs => if a = b then a :: commonParts as bs else []
  | _, _ => []

def directoryParts (name : List Char) : List Name :=
  (Path.parse name).parent.parts

def sharedParts : List (List Char) → List Name
  | [] => []
  | n :: ns => ns.foldl (fun acc m => commonParts acc (directoryParts m)) (directoryParts n)

/-- The directory that all names share. -/
def commonDirectory (names : List (List Char)) : List Char :=
  join ['/'] (sharedParts names)

/-- A name without the shared directory and the extension. -/
def shortName (name common : List Char) : List Char :=
  let stem := (Path.cutExtension name).1
  if common.isEmpty then stem else (after? (common ++ ['/']) stem).getD stem

/-- The page of a relative name below an output directory. -/
def pagePath (output relativeName : List Char) : List Char :=
  Path.normal ((slashParts relativeName).foldl Path.joined output ++ ".html".toList)

/-- The source made of a found file. -/
def ofFound (output : List Char) (index : Option (List Char)) (common : List Char)
    (found : List Char × List Char) : Source :=
  let isIndex := index = some found.1
  let relativeName := if isIndex then "index".toList else shortName found.2 common
  { fullPath := found.1, name := found.2, relativeName
    outputPath := pagePath output relativeName, isIndex }

/-- The sources made of found files. -/
def mapOutputs (found : Found) (output : List Char) (index : Option (List Char)) : List Source :=
  found.map (ofFound output index (commonDirectory (found.map (·.2))))

/-- Pairs of sources with one page: each source that shares its page with an earlier one, beside the
last such one. `claimed` are the earlier sources, last one first. -/
def collisionsFrom (claimed : List Source) : List Source → List (Source × Source)
  | [] => []
  | s :: rest =>
    let later := collisionsFrom (s :: claimed) rest
    match claimed.find? (·.outputPath = s.outputPath) with
    | some earlier => (earlier, s) :: later
    | none => later

/-- Pairs of neighbouring sources with one page. -/
def collisions (sources : List Source) : List (Source × Source) :=
  collisionsFrom [] sources

end Source
end Marginalia
