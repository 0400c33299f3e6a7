/-
What the arguments of the program ask for. Options that hold for every task
may stand before its name or behind it, where they win. Arguments are gone
through in their order, and the first one that asks for help or the version,
or that is wrong, settles the matter.
-/
import MarkupLens.View.Format

namespace MarkupLens.Command

/-- What is to be done. -/
inductive Task where
  /-- render the template at a path, or the default one, against the context at a path, or an empty one -/
  | render (template context : Option Text)
  /-- show the page at a path in a form -/
  | extract (markup : Text) (format : Option View.Format) (compact : Bool)
  /-- list the directives -/
  | directives
  deriving DecidableEq, Repr

/-- A task and the options that hold for every task. -/
structure Request where
  /-- a settings file -/
  config : Option Text
  /-- what goes to the log -/
  logLevel : Option Text
  task : Task
  deriving DecidableEq, Repr

/-- Why there is no task. -/
inductive Halt where
  | help
  | version
  /-- an argument is wrong, or one is missing -/
  | misuse
  deriving DecidableEq, Repr

/-! ## Options -/

/-- The options. -/
inductive Switch where
  | config
  | logLevel
  | context
  | format
  | compact
  | help
  | version
  deriving DecidableEq, Repr

namespace Switch

/-- The name of an option, which stands behind two hyphens. -/
def name : Switch → Text
  | .config => "config"
  | .logLevel => "log-level"
  | .context => "context"
  | .format => "format"
  | .compact => "compact"
  | .help => "help"
  | .version => "version"

/-- The letter of an option, which stands behind one hyphen. -/
def letter? : Switch → Option Char
  | .config => some 'c'
  | .context => some 'x'
  | .format => some 'f'
  | .help => some 'h'
  | .version => some 'V'
  | .logLevel | .compact => none

/-- Whether an option has a value. -/
def takesValue : Switch → Bool
  | .config | .logLevel | .context | .format => true
  | .compact | .help | .version => false

/-- Whether an option may have a value. -/
def accepts (value : Text) : Switch → Bool
  | .format => (View.Format.ofName? value).isSome
  | _ => true

end Switch

/-- The sorts of arguments. -/
inductive Argument where
  /-- after it every argument is a word -/
  | separator
  /-- the name of an option, with a value if an equals sign stands behind it -/
  | named (name : Text) (value : Option Text)
  /-- letters of options, and perhaps a value behind the last one -/
  | letters (s : Text)
  | word
  deriving DecidableEq

/-- The sort of an argument. A hyphen alone is a word. -/
def Argument.of : Text → Argument
  | ['-', '-'] => .separator
  | '-' :: '-' :: s =>
    match s.dropWhile (· != '=') with
    | _ :: value => .named (s.takeWhile (· != '=')) (some value)
    | [] => .named s none
  | '-' :: c :: s => .letters (c :: s)
  | _ => .word

/-- Where arguments stand: before the name of a task, or behind it. -/
structure Level where
  switches : List Switch
  /-- how many words may stand there -/
  words : Nat
  /-- the first word ends the level -/
  endsAtWord : Bool

/-- The arguments of a level that were gone through. -/
structure Given where
  values : List (Switch × Text)
  words : List Text

namespace Given

/-- No arguments. -/
def nothing : Given := ⟨[], []⟩

/-- The value of an option, which is empty if the option has none. -/
def value? (g : Given) (s : Switch) : Option Text := g.values.lookup s

/-- Adds an option. None may be repeated. -/
def addValue (g : Given) (s : Switch) (value : Text) : Except Halt Given :=
  match s with
  | .help => .error .help
  | .version => .error .version
  | s =>
    if (g.value? s).isSome || !s.accepts value then .error .misuse
    else .ok { g with values := g.values ++ [(s, value)] }

/-- Adds a word, if the level takes one more. -/
def addWord (level : Level) (g : Given) (w : Text) : Except Halt Given :=
  if g.words.length < level.words then .ok { g with words := g.words ++ [w] } else .error .misuse

/-- Goes through letters. The last one may be that of an option whose value is the next argument. -/
def addLetters (level : Level) (g : Given) : Text → Except Halt (Given × Option Switch)
  | [] => .ok (g, none)
  | c :: s =>
    match level.switches.find? (·.letter? == some c) with
    | none => .error .misuse
    | some switch =>
      if switch.takesValue then
        match s with
        | [] => .ok (g, some switch)
        | '=' :: value => do return (← g.addValue switch value, none)
        | value => do return (← g.addValue switch value, none)
      else do addLetters level (← g.addValue switch []) s

/-- Goes through arguments that are all words. -/
def addWords (level : Level) (g : Given) : List Text → Except Halt Given
  | [] => .ok g
  | w :: ws => do addWords level (← g.addWord level w) ws

/-- Goes through the arguments of a level, the first of which may have to be the value of an option. What is left
starts with the word that ends the level. -/
def collect (level : Level) (g : Given) : (awaiting : Option Switch) → List Text → Except Halt (Given × List Text)
  | some _, [] => .error .misuse
  | none, [] => .ok (g, [])
  | some switch, a :: rest => do
    if Argument.of a = .word then collect level (← g.addValue switch a) none rest else .error .misuse
  | none, a :: rest =>
    match Argument.of a with
    | .separator => do return (← g.addWords level rest, [])
    | .named name value =>
      match level.switches.find? (·.name == name), value with
      | none, _ => .error .misuse
      | some switch, some value =>
        if switch.takesValue then do collect level (← g.addValue switch value) none rest else .error .misuse
      | some switch, none =>
        if switch.takesValue then collect level g (some switch) rest
        else do collect level (← g.addValue switch []) none rest
    | .letters s => do
      let (g, awaiting) ← g.addLetters level s
      collect level g awaiting rest
    | .word =>
      if level.endsAtWord then .ok (g, a :: rest) else do collect level (← g.addWord level a) none rest

end Given

/-! ## Tasks -/

/-- The names of tasks. -/
inductive TaskName where
  | render
  | extract
  | directives
  /-- tells about the tasks -/
  | help
  deriving DecidableEq, Repr

namespace TaskName

/-- How a task is called. -/
def name : TaskName → Text
  | .render => "render"
  | .extract => "extract"
  | .directives => "directives"
  | .help => "help"

/-- The task that is called so. -/
def ofName? (n : Text) : Option TaskName := [render, extract, directives, help].find? (·.name == n)

theorem ofName?_name (t : TaskName) : ofName? t.name = some t := by cases t <;> decide

/-- The arguments behind the name of a task. -/
def level : TaskName → Level
  | .render => ⟨[.context, .config, .logLevel, .help], 1, false⟩
  | .extract => ⟨[.format, .compact, .config, .logLevel, .help], 1, false⟩
  | .directives | .help => ⟨[.config, .logLevel, .help], 0, false⟩

end TaskName

/-- The arguments before the name of a task. -/
def outerLevel : Level := ⟨[.config, .logLevel, .help, .version], 0, true⟩

/-- The task of a name and the arguments behind it. -/
def taskOf (name : TaskName) (g : Given) : Except Halt Task :=
  match name with
  | .render => .ok (.render g.words.head? (g.value? .context))
  | .extract =>
    match g.words.head? with
    | some markup =>
      .ok (.extract markup ((g.value? .format).bind View.Format.ofName?) (g.value? .compact).isSome)
    | none => .error .misuse
  | .directives => .ok .directives
  | .help => .error .help

/-- Help with a task, if there is one of that name, or with all. -/
def helpWith : List Text → Halt
  | [] => .help
  | [name] => if (TaskName.ofName? name).isSome then .help else .misuse
  | _ => .misuse

/-- What arguments ask for. -/
def Request.ofArguments (args : List Text) : Except Halt Request := do
  let (outer, rest) ← Given.nothing.collect outerLevel none args
  match rest with
  | [] => .error .misuse
  | word :: rest =>
    match TaskName.ofName? word with
    | none => .error .misuse
    | some .help => .error (helpWith rest)
    | some name =>
      let (inner, _) ← Given.nothing.collect name.level none rest
      let task ← taskOf name inner
      return {
        config := (inner.value? .config).or (outer.value? .config)
        logLevel := (inner.value? .logLevel).or (outer.value? .logLevel)
        task }

end MarkupLens.Command
