import Multicast.Settings.Environment
import Multicast.Settings.Path
import Multicast.Settings.Printer
import Multicast.Settings.Reader
import Multicast.Toml.Document

/-! Loading settings: the files of the user, the project and the machine, and the environment, each
laid over what comes before it. -/
namespace Multicast

structure Sources where
  /-- The texts of the files, lowest precedence first. A missing file sets nothing. -/
  files : List (Option String) := []
  environment : Environment := []
  /-- The word that the names of variables start with. -/
  word : String := "COHORT"

inductive LoadError where
  /-- A file is not well formed. -/
  | malformed
  /-- A value does not fit. -/
  | unfit
  | invalid (e : SettingsError)
  deriving DecidableEq, Repr

namespace LoadError

/-- The message, then those of its causes. -/
def chain : LoadError → List String
  | .malformed => ["Failed to build configuration"]
  | .unfit => ["Failed to deserialize configuration"]
  | .invalid e => "Configuration failed validation" :: e.chain

def message (e : LoadError) : String := ": ".intercalate e.chain

end LoadError

/-- The value of a setting in a tree. An empty list leaves no trace there. -/
def Field.value? : Field → Option Value
  | .number n => some (.whole n)
  | .flag b => some (.flag b)
  | .text s => some (.text s)
  | .texts [] => none
  | .texts ss => some (.list (ss.map Value.text))
  | .absent => some .absent

/-- Settings as a source of values. -/
def Settings.values (s : Settings) : List (String × Value) :=
  s.sections.map fun (name, entries) =>
    (name, .table (entries.filterMap fun (key, f) => f.value?.map (key, ·)))

namespace Sources

/-- All sources, the later over the earlier and all over the defaults, unless a file is not well
formed. A file may have a mark of the byte order before that of its text. -/
def tree? (s : Sources) : Option Value := do
  let files ← (s.files.filterMap id).mapM fun text =>
    Toml.read? (String.ofList (Toml.dropMark text.toList))
  let defaults : Settings := {}
  return (defaults.values :: files ++ [s.environment.values s.word]).foldl Value.overlaySource
    (.table [])

def load (s : Sources) : Except LoadError Settings :=
  match s.tree? with
  | none => .error .malformed
  | some tree =>
    match Settings.read? .lenient tree with
    | none => .error .unfit
    | some settings =>
      match settings.validate with
      | .error e => .error (.invalid e)
      | .ok () => .ok settings

end Sources

end Multicast
