import StylePrune.Path.Basic

/-!
# Log events

What a run tells besides its answer. Each event has a level, the part of the program it
comes from, and a text; which of them are shown is decided by `Log.Filter`.
-/

namespace StylePrune.Log

/-- How much an event matters, the most important first. -/
inductive Level where
  | error
  | warn
  | info
  | debug
  | trace
deriving DecidableEq, Repr

/-- The parts of the program that log. -/
inductive Topic where
  | extract
  | imports
  | loader
  | analyzer
  | remove
deriving DecidableEq, Repr

/-- Something worth telling. -/
inductive Event where
  /-- The style literal of a file has no end. -/
  | unterminated (file : Path)
  /-- A file has a second style literal. -/
  | repeated (file : Path)
  /-- The script grammar refused a file. -/
  | gaveUp (file : Path)
  /-- A folder tree was read. -/
  | loaded (files : Nat) (root : Path)
  /-- The style tables of a tree were collected. -/
  | collected (tables files : Nat)
  /-- A style file is being compared with its uses. -/
  | checking (file : Path)
  /-- Keys are about to be cut from a file. -/
  | removing (file : Path)
  /-- A key to be cut is not there. -/
  | keyMissing (key : String) (file : Path)
deriving DecidableEq, Repr

namespace Level

/-- How many levels are as important or more. -/
def verbosity : Level → Nat
  | .error => 1
  | .warn => 2
  | .info => 3
  | .debug => 4
  | .trace => 5

/-- The name in front of a log line. -/
def label : Level → String
  | .error => "ERROR"
  | .warn => "WARN"
  | .info => "INFO"
  | .debug => "DEBUG"
  | .trace => "TRACE"

/-- Whether an event of level `l` is shown when `limit` is asked for. -/
def within (l limit : Level) : Bool :=
  l.verbosity ≤ limit.verbosity

end Level

/-- The name that a log filter knows a part of the program by. -/
def Topic.target : Topic → String
  | .extract => "unused_styles::extract"
  | .imports => "unused_styles::imports"
  | .loader => "unused_styles::loader"
  | .analyzer => "unused_styles::analyzer"
  | .remove => "unused_styles::remove"

namespace Event

/-- The level of an event. -/
def level : Event → Level
  | .unterminated _ | .repeated _ => .warn
  | .removing _ => .info
  | .loaded .. | .collected .. | .checking _ | .keyMissing .. => .debug
  | .gaveUp _ => .trace

/-- The part of the program an event comes from. -/
def topic : Event → Topic
  | .unterminated _ | .repeated _ => .extract
  | .gaveUp _ => .imports
  | .loaded .. => .loader
  | .collected .. | .checking _ => .analyzer
  | .removing _ | .keyMissing .. => .remove

/-- The text of an event. -/
def message : Event → String
  | .unterminated file =>
    s!"style literal in {file.text} is not terminated; keys may be incomplete"
  | .repeated file =>
    s!"{file.text} declares more than one style literal; only the first is analyzed"
  | .gaveUp file => s!"parser gave up on {file.text}, using line scanner"
  | .loaded files root => s!"loaded {files} files from {root.text}"
  | .collected tables files => s!"{tables} style tables among {files} files"
  | .checking file => s!"checking unused styles for {file.text}"
  | .removing file => s!"removing from {file.text}"
  | .keyMissing key file => s!"key {key} not found in {file.text}"

/-- The line of an event in a log. -/
def line (e : Event) : String :=
  e.level.label ++ " " ++ e.message

end Event

end StylePrune.Log
