import ProjectAudit.Text.Digit
import ProjectAudit.Text.Quoted

/-!
# Command lines

A command is described by its options, each of which says what it does to the command's settings.
`Grammar.parse` reads the arguments in three passes.

* `classify` tells options from other words.  A long option may be cut short as long as only one
  option begins so, and short options may share one dash.  After `--` there are no options.
* `steps` gives each option the value that belongs to it, which stands behind an equals sign or is
  the next word, unless that one looks like an option.
* `perform` goes through the steps in order.  The first fault ends it, and so does a wish for help;
  words that belong to no option are reported only when nothing else is wrong.

An ambiguous word is a fault of the first pass, so it is reported before all other faults.
-/

namespace ProjectAudit.CommandLine

variable {α : Type}

/-- What an option does to the settings of a command. -/
inductive Effect (α : Type)
  /-- The command explains itself and does nothing else. -/
  | help
  | switch (change : α → α)
  /-- The option takes a value, one of the choices if there are any. -/
  | value (choices : List Text) (change : Text → α → α)

/-- An option and the names it has. -/
structure Flag (α : Type) where
  names : List Text
  effect : Effect α

/-- The option takes a value. -/
def Flag.takesValue (f : Flag α) : Bool :=
  match f.effect with
  | .value _ _ => true
  | _ => false

/-- How messages name an option. -/
def Flag.label (f : Flag α) : Text :=
  Text.joined "/" f.names

/-- What is wrong with a command line. -/
inductive UsageError
  | ambiguous (word : Text) (candidates : List Text)
  | missingValue (label : Text)
  | unwantedValue (label value : Text)
  | notAChoice (label value : Text) (choices : List Text)
  | unrecognized (words : List Text)
  deriving DecidableEq, Repr

/-- The wording of a usage error. -/
def UsageError.message : UsageError → Text
  | .ambiguous word candidates =>
    "ambiguous option: " ++ word ++ " could match " ++ Text.joined ", " candidates
  | .missingValue label => "argument " ++ label ++ ": expected one argument"
  | .unwantedValue label value =>
    "argument " ++ label ++ ": ignored explicit argument " ++ Text.quoted value
  | .notAChoice label value choices =>
    "argument " ++ label ++ ": invalid choice: " ++ Text.quoted value ++ " (choose from " ++
      Text.joined ", " (choices.map Text.quoted) ++ ")"
  | .unrecognized words => "unrecognized arguments: " ++ Text.joined " " words

/-- A command, its options and its settings when no option is given. -/
structure Grammar (α : Type) where
  program : String
  flags : List (Flag α)
  defaults : α
  /-- One paragraph that shows how the command is called. -/
  usage : String
  /-- What follows that paragraph when the command explains itself. -/
  explanation : String

/-- What a command line asks for. -/
inductive Request (α : Type)
  | help
  | command (settings : α)

namespace Grammar

/-- The options under each of their names. -/
def named (g : Grammar α) : List (Text × Flag α) :=
  g.flags.flatMap fun f => f.names.map fun name => (name, f)

/-- The option of exactly the given name. -/
def flag? (g : Grammar α) (name : Text) : Option (Flag α) :=
  (g.named.find? fun entry => entry.1 == name).map (·.2)

/-! ## Telling options from other words -/

/-- A word of a command line. -/
inductive Word (α : Type)
  /-- A word that can be the value of an option. -/
  | plain (text : Text)
  /-- A word that can be no value and names no option. -/
  | unknown (text : Text)
  /-- An option under one of its names, with the value in the same word. -/
  | option (name : Text) (flag : Flag α) (value : Option Text)

/-- The text in front of the first equals sign, and the text behind it if there is one. -/
def cutAtEquals (s : Text) : Text × Option Text :=
  match s.span (· != CodePoint.char '=') with
  | (front, _ :: value) => (front, some value)
  | (front, []) => (front, none)

/-- A text without the line feed at its end. -/
def dropLastNewline (s : Text) : Text :=
  if s.getLast? = some (.char '\n') then s.dropLast else s

/-- A negative number without an exponent. -/
def isNegativeNumber : Text → Bool
  | .char '-' :: r =>
    match (dropLastNewline r).span Text.isDecimal with
    | (whole, []) => !whole.isEmpty
    | (_, .char '.' :: fraction) => !fraction.isEmpty && fraction.all Text.isDecimal
    | _ => false
  | _ => false

/-- The options that a word may stand for which is the exact name of none.  Two dashes begin a long
name, perhaps cut short; one dash is followed by a short name and more. -/
def candidates (g : Grammar α) (word : Text) : List (Text × Flag α × Option Text) :=
  match word with
  | .char '-' :: .char '-' :: _ =>
    let (front, value) := cutAtEquals word
    g.named.filterMap fun (name, f) =>
      if front.isPrefixOf name then some (name, f, value) else none
  | .char '-' :: letter :: more =>
    g.named.filterMap fun (name, f) =>
      if name = [.char '-', letter] then some (name, f, some more) else none
  | _ => []

/-- The word for something that begins with a dash and is the exact name of no option. -/
def classifyInexact (g : Grammar α) (word : Text) : Except UsageError (Word α) :=
  match g.candidates word with
  | [(name, f, value)] => .ok (.option name f value)
  | [] =>
    if isNegativeNumber word || word.contains (.char ' ') then .ok (.plain word)
    else .ok (.unknown word)
  | several => .error (.ambiguous word (several.map (·.1)))

/-- The word that a text is, in front of any `--`. -/
def classify (g : Grammar α) (word : Text) : Except UsageError (Word α) :=
  match word with
  | .char '-' :: _ :: _ =>
    match g.flag? word with
    | some f => .ok (.option word f none)
    | none =>
      let (front, value) := cutAtEquals word
      match g.flag? front with
      | some f => .ok (.option front f value)
      | none => g.classifyInexact word
  | _ => .ok (.plain word)

/-- The words that the arguments are. -/
def words (g : Grammar α) : List Text → Except UsageError (List (Word α))
  | [] => .ok []
  | word :: rest =>
    if word = "--" then .ok (.unknown word :: rest.map .plain)
    else do
      let first ← g.classify word
      return first :: (← words g rest)

/-! ## Giving values to options -/

/-- One step in reading a command line. -/
inductive Step (α : Type)
  | change (f : α → α)
  | help
  | extra (word : Text)
  | fault (e : UsageError)

/-- The step of an option with the value that belongs to it. -/
def stepOf (f : Flag α) (value : Text) : Step α :=
  match f.effect with
  | .help => .help
  | .switch change => .change change
  | .value choices change =>
    if choices.isEmpty || choices.contains value then .change (change value)
    else .fault (.notAChoice f.label value choices)

/-- The options that share one dash, the first of which is given with the text behind it.  The text
behind an option that takes a value is its value. -/
def sharing (g : Grammar α) :
    Flag α → Text → Except UsageError (List (Flag α × Option Text))
  | f, [] => .ok [(f, none)]
  | f, c :: r =>
    if f.takesValue then .ok [(f, some (c :: r))]
    else match g.flag? ['-', c] with
      | some next => do return (f, none) :: (← sharing g next r)
      | none => .error (.unwantedValue f.label (c :: r))

/-- A name with one dash. -/
def isShort (name : Text) : Bool :=
  match name with
  | .char '-' :: c :: _ => c != .char '-'
  | _ => false

/-- The options in one word. -/
def flagsIn (g : Grammar α) (name : Text) (f : Flag α) (value : Option Text) :
    Except UsageError (List (Flag α × Option Text)) :=
  match value with
  | none => .ok [(f, none)]
  | some v =>
    if f.takesValue then .ok [(f, some v)]
    else if isShort name && !v.isEmpty then g.sharing f v
    else .error (.unwantedValue f.label v)

/-- The last option of a word, if it still lacks its value. -/
def lacking? (uses : List (Flag α × Option Text)) : Option (Flag α) :=
  match uses.getLast? with
  | some (f, none) => if f.takesValue then some f else none
  | _ => none

/-- The steps of options whose values are known, `next` being the value of one that lacks it. -/
def stepsOf (next : Text) (uses : List (Flag α × Option Text)) : List (Step α) :=
  uses.map fun (f, value) => stepOf f (value.getD next)

/-- The steps that the words come to. -/
def steps (g : Grammar α) : List (Word α) → List (Step α)
  | [] => []
  | .plain s :: rest => .extra s :: steps g rest
  | .unknown s :: rest => .extra s :: steps g rest
  | .option name f value :: rest =>
    match g.flagsIn name f value with
    | .error e => [.fault e]
    | .ok uses =>
      match lacking? uses with
      | none => stepsOf [] uses ++ steps g rest
      | some last =>
        match rest with
        | .plain s :: rest => stepsOf s uses ++ steps g rest
        | _ => [.fault (.missingValue last.label)]

/-! ## Going through the steps -/

/-- What the steps come to, from the given settings and extra words on. -/
def perform : α → (extras : List Text) → List (Step α) → Except UsageError (Request α)
  | settings, extras, [] =>
    if extras.isEmpty then .ok (.command settings) else .error (.unrecognized extras)
  | settings, extras, .change f :: rest => perform (f settings) extras rest
  | _, _, .help :: _ => .ok .help
  | settings, extras, .extra word :: rest => perform settings (extras ++ [word]) rest
  | _, _, .fault e :: _ => .error e

/-- What a command line asks for. -/
def parse (g : Grammar α) (arguments : List Text) : Except UsageError (Request α) := do
  let words ← g.words arguments
  perform g.defaults [] (g.steps words)

/-- What is printed for a wish for help. -/
def helpText (g : Grammar α) : Text :=
  g.usage ++ g.explanation

/-- What is printed for a usage error. -/
def errorText (g : Grammar α) (e : UsageError) : Text :=
  g.usage ++ g.program ++ ": error: " ++ e.message ++ "\n"

end Grammar

end ProjectAudit.CommandLine
