import Marginalia.Text.Chars

/-! # The journal of a run

What a run reports, in order. Each record has a level, the part of the program that wrote it and a
message; the command line shows those at or above a level.
-/
namespace Marginalia

open Text

/-- How important a record is. -/
inductive Level where
  | debug
  | info
  | warning
deriving DecidableEq

def Level.name : Level → String
  | debug => "DEBUG"
  | info => "INFO"
  | warning => "WARNING"

def Level.rank : Level → Nat
  | debug => 0
  | info => 1
  | warning => 2

/-- Who writes a record. -/
inductive Writer where
  | run
  | sources
  | pipeline
  | splitters
  | commandLine
deriving DecidableEq

def Writer.name : Writer → String
  | run => "blockdoc.run"
  | sources => "blockdoc.sources"
  | pipeline => "blockdoc.pipeline"
  | splitters => "blockdoc.parsers"
  | commandLine => "blockdoc.cli"

/-- One report. -/
structure Record where
  level : Level
  writer : Writer
  message : List Char
deriving DecidableEq

def Record.line (r : Record) : List Char :=
  "[blockdoc] ".toList ++ r.level.name.toList ++ ' ' :: r.message

def Record.fileLine (r : Record) : List Char :=
  r.level.name.toList ++ ' ' :: r.writer.name.toList ++ ": ".toList ++ r.message

end Marginalia
