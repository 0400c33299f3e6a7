/-
Carrying out what the arguments ask for. Settings come first, then what is
read, and in a rendering the context before the template; the first thing
that goes wrong ends the run with nothing printed.
-/
import MarkupLens.Command.Arguments
import MarkupLens.Context.OfFile
import MarkupLens.Directive.Listing
import MarkupLens.Settings.Layers
import MarkupLens.Template

namespace MarkupLens

namespace Settings

/-- What stands in for a template, by the settings. -/
def templateSource (s : Settings) : TemplateSource :=
  match s.defaultTemplate with
  | some path => .file path
  | none => .unset

/-- The form in which a page is shown unless one is asked for. -/
def pageFormat (s : Settings) : View.Format :=
  match s.format with
  | .json => .json
  | .yaml => .yaml

end Settings

namespace Command

/-- Why a task could not be carried out. -/
inductive Failure where
  | settings (error : SettingsError)
  | unreadable (path : Text) (fault : FileFault)
  | badContext (path : Text) (error : ContextFileError)
  | template (error : TemplateError)
  deriving DecidableEq, Repr

/-- The wording of a failure. What is wrong with the settings is not told here. -/
def Failure.message : Failure → Text
  | .settings _ => "Configuration error"
  | .unreadable path fault => "Error reading '" ++ path ++ "': " ++ fault.message
  | .badContext path e => "Error in '" ++ path ++ "': " ++ e.message
  | .template e => "Render error: " ++ e.message

/-- How a run ends. -/
inductive Outcome where
  | printed (text : Text)
  | failed (why : Failure)
  /-- no task could be made out -/
  | misused
  deriving DecidableEq, Repr

namespace Outcome

/-- The number that tells the caller how the run ended. -/
def code : Outcome → Nat
  | .printed _ => 0
  | .failed _ => 1
  | .misused => 2

/-- What is printed. -/
def output : Outcome → Text
  | .printed text => text
  | _ => []

/-- What is said where something goes wrong. -/
def message? : Outcome → Option Text
  | .failed why => some why.message
  | _ => none

/-- There is a message exactly where a task failed. -/
theorem message?_isSome_iff (o : Outcome) : o.message?.isSome ↔ o.code = 1 := by
  cases o <;> simp [message?, code]

/-- Where anything goes wrong nothing is printed. -/
theorem output_eq_nil {o : Outcome} (h : o.code ≠ 0) : o.output = [] := by
  cases o with
  | printed text => exact absurd rfl h
  | failed why => rfl
  | misused => rfl

end Outcome

/-- The settings file that is used if it is there. -/
def settingsPath : Text := "nyanplate.toml"

/-- What is printed for the version. -/
def versionLine : Text := "nyanplate 0.1.0\n"

/-- What is printed for help. -/
def helpText : Text :=
  "Render data-bound markup templates and extract their context back\n\n" ++
  "Usage: nyanplate [-c FILE] [--log-level FILTER] COMMAND\n\n" ++
  "Commands:\n" ++
  "  render [TEMPLATE] [-x CONTEXT]\n" ++
  "  extract MARKUP [-f FORMAT] [--compact]\n" ++
  "  directives\n"

variable {m : Type → Type} [Monad m]

/-- A run that may fail. -/
abbrev Running (m : Type → Type) := ExceptT Failure m

/-- What another step gives, with its errors as failures. -/
def orFail (failure : ε → Failure) (step : m (Except ε α)) : Running m α :=
  ExceptT.mk do return (← step).mapError failure

/-- The text at a path; a hyphen stands for the standard input. -/
def readSource (w : World m) (path : Text) : Running m Text :=
  orFail (.unreadable path) (if path = ['-'] then return textOfBytes (← w.input) else w.readText path)

/-- The layers of settings that a request asks for. -/
def Request.layers (r : Request) : List SettingLayer :=
  .optionalFile settingsPath :: (r.config.map .file).toList ++
    (r.logLevel.map fun level => .single "log.level" (.string level)).toList

/-- The context at a path, or an empty one. -/
def readContext (w : World m) : (path : Option Text) → Running m Context
  | none => return .empty
  | some path => do
    let text ← readSource w path
    orFail (.badContext path) (return Context.ofFile path text)

/-- The template at a path, if there is a path. -/
def readTemplate (w : World m) : (path : Option Text) → Running m (Option Text)
  | none => return none
  | some path => return some (← readSource w path)

/-- Carries out a task; the text is what it prints. -/
def Task.run (w : World m) (settings : Settings) : Task → Running m Text
  | .render template context => do
    let c ← readContext w context
    let t ← readTemplate w template
    orFail .template (Template.renderOr w c t settings.templateSource)
  | .extract markup format compact => do
    let page ← readSource w markup
    return (format.getD settings.pageFormat).write (settings.pretty && !compact) page
  | .directives => return DirectiveTable.standard.listing

/-- Carries out a request. -/
def Request.run (w : World m) (r : Request) : Running m Text := do
  let settings ← orFail .settings (Settings.load w r.layers)
  r.task.run w settings

/-- Carries out what arguments ask for. -/
def run (w : World m) (args : List Text) : m Outcome := do
  match Request.ofArguments args with
  | .error .help => return .printed helpText
  | .error .version => return .printed versionLine
  | .error .misuse => return .misused
  | .ok request =>
    match ← (request.run w).run with
    | .ok text => return .printed text
    | .error why => return .failed why

end Command

end MarkupLens
