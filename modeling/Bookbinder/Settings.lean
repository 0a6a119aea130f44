import Bookbinder.Calendar.Instant
import Bookbinder.Text.Blank
import Bookbinder.Toml.Document
/-!
# Settings of a build

What a caller can choose about a build, with defaults for all of it, and the same settings read from TOML.  Keys that
are no settings are passed over.
-/
namespace Bookbinder

structure Settings where
  /-- Whether markers that cannot be resolved are only warned about. -/
  ignoreMissingInjections : Bool := false
  suppressErrorsPage : Bool := false
  suppressContentSpecPage : Bool := false
  /-- Whether topics offer to report bugs. -/
  insertBugLinks : Bool := true
  bugzillaUrl : String := "https://bugzilla.redhat.com/"
  /-- Whether injection is turned off or on altogether. -/
  injection : Option Bool := none
  injectionTypes : List String := []
  /-- Metadata of the book that takes precedence. -/
  overrides : List (String × String) := []
  showRemarks : Bool := false
  cvsPackage : Option String := none
  buildName : Option String := none
  buildDate : Option Calendar.Instant := none
  defaultLocale : String := "en-US"
  /-- How often the whole of finding addresses is tried. -/
  addressRetries : Nat := 5
  /-- How many numbers are tried behind an address. -/
  addressAttempts : Nat := 100
deriving DecidableEq, Repr, Inhabited

/-- Why settings cannot be used. -/
inductive SettingsError where
  | emptyLocale
  | noRetries
  | noAttempts
  /-- The text is no TOML, or a setting is of the wrong kind. -/
  | unreadable
deriving DecidableEq, Repr

def SettingsError.message? : SettingsError → Option String
  | emptyLocale => some "default_locale must not be empty"
  | noRetries => some "fixed_url_retries must be at least 1"
  | noAttempts => some "fixed_url_name_attempts must be at least 1"
  | unreadable => none

namespace Settings

/-- The first thing that is wrong with settings. -/
def fault? (s : Settings) : Option SettingsError :=
  if Text.allBlank s.defaultLocale then some .emptyLocale
  else if s.addressRetries = 0 then some .noRetries
  else if s.addressAttempts = 0 then some .noAttempts
  else none

/-! ## From TOML -/

def text? : Toml.Value → Option String
  | .text s => some s
  | _ => none

def bool? : Toml.Value → Option Bool
  | .bool b => some b
  | _ => none

/-- A number of 64 bits without a sign. -/
def nat? : Toml.Value → Option Nat
  | .int i => if 0 ≤ i ∧ i < Decimal.unsignedLimit then some i.toNat else none
  | _ => none

def texts? : Toml.Value → Option (List String)
  | .array items => items.mapM text?
  | _ => none

/-- The name under which a date or time is an entry of a table that consists of it alone. -/
def stampKey : String := "$__toml_private_datetime"

def textTable? : Toml.Value → Option (List (String × String))
  | .stamp s => some [(stampKey, s.text)]
  | .table _ entries => entries.mapM fun e => (text? e.2).map fun s => (e.1, s)
  | _ => none

def instant? (v : Toml.Value) : Option Calendar.Instant :=
  (text? v).bind Calendar.Instant.read?

/-- The settings with one key of a document taken in. -/
def set? (s : Settings) (key : String) (v : Toml.Value) : Option Settings :=
  match key with
  | "ignore_missing_injections" => (bool? v).map fun b => { s with ignoreMissingInjections := b }
  | "suppress_errors_page" => (bool? v).map fun b => { s with suppressErrorsPage := b }
  | "suppress_content_spec_page" => (bool? v).map fun b => { s with suppressContentSpecPage := b }
  | "insert_bugzilla_links" => (bool? v).map fun b => { s with insertBugLinks := b }
  | "bugzilla_url" => (text? v).map fun t => { s with bugzillaUrl := t }
  | "injection" => (bool? v).map fun b => { s with injection := some b }
  | "injection_types" => (texts? v).map fun ts => { s with injectionTypes := ts }
  | "overrides" => (textTable? v).map fun es => { s with overrides := es }
  | "publican_show_remarks" => (bool? v).map fun b => { s with showRemarks := b }
  | "cvs_pkg" => (text? v).map fun t => { s with cvsPackage := some t }
  | "build_name" => (text? v).map fun t => { s with buildName := some t }
  | "build_date" => (instant? v).map fun i => { s with buildDate := some i }
  | "default_locale" => (text? v).map fun t => { s with defaultLocale := t }
  | "fixed_url_retries" => (nat? v).map fun n => { s with addressRetries := n }
  | "fixed_url_name_attempts" => (nat? v).map fun n => { s with addressAttempts := n }
  | _ => some s

/-- The settings that a table holds. -/
def ofTable? (t : Toml.Table) : Option Settings :=
  t.foldlM (fun s e => s.set? e.1 e.2) {}

/-- The settings that a TOML text holds, if they can be used. -/
def ofToml (text : String) : Except SettingsError Settings :=
  match (Toml.read? text).bind ofTable? with
  | none => .error .unreadable
  | some s => match s.fault? with
    | some e => .error e
    | none => .ok s

end Settings
end Bookbinder
