import Marginalia.FileTree
import Marginalia.Journal
import Marginalia.Text.Utf8

/-! # The world of a run

The files, the places a run knows by itself, and the journal. A journal file gets a copy of each record
at once, so that a run that reads it sees what was reported before.
-/
namespace Marginalia

open Text

/-- A file that gets records from a level on. -/
structure JournalFile where
  place : Place
  least : Level

/-- What a run sees and changes. -/
structure World where
  tree : FileTree
  /-- The home directory of the user. -/
  home : List Char
  /-- The directory of the layouts that are always there. -/
  layouts : List Char
  /-- The time as a journal file writes it. -/
  clock : List Char := []
  journal : List Record := []
  copy : Option JournalFile := none

namespace World

def addLine (t : FileTree) (place : Place) (line : List Char) : FileTree :=
  match t.get? place with
  | some (.file content) => t.put place (.file (content ++ encode (line ++ ['\n'])))
  | _ => t

def report (w : World) (r : Record) : World :=
  let tree := match w.copy with
    | some file =>
      if file.least.rank ≤ r.level.rank then
        addLine w.tree file.place (w.clock ++ ' ' :: r.fileLine)
      else w.tree
    | none => w.tree
  { w with tree, journal := w.journal ++ [r] }

def reportAll (w : World) (rs : List Record) : World :=
  rs.foldl report w

end World
end Marginalia
