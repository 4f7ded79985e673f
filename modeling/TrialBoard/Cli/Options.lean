/-!
# Options on a command line

A command has options and may have commands under it. An option has a long name after two hyphens,
perhaps also a letter after one, and takes a value or none. The value is the next word, or stands
right after the letter, or after an equals sign. Letters may share a hyphen as long as none before
the last takes a value. A word that starts with a hyphen is no value unless it is attached.

`CommandSpec.read` reads the words strictly from left to right: the first thing that is wrong, or
that asks for help or the version, ends it.
-/

namespace TrialBoard.Cli

/-- What an option does. -/
inductive OptionKind where
  /-- It is given or not, at most once. -/
  | switch
  /-- It may be given again and again. -/
  | counter
  /-- It takes a value, at most once, which has to pass a check. -/
  | value (accepts : String → Bool)
  | help
  | version

/-- An option of a command. -/
structure OptionSpec where
  long : String
  short? : Option Char := none
  kind : OptionKind
  isRequired : Bool := false
  description : String := ""
  /-- The value it has where it is not given. -/
  default? : Option String := none

/-- A command. -/
inductive CommandSpec where
  | mk (name description : String) (options : List OptionSpec) (commands : List CommandSpec)

/-- The options given to one command, with their values. -/
abbrev Given := List (String × String)

/-- Why there is nothing to run. -/
inductive Stop where
  /-- The command line is wrong. -/
  | misuse
  /-- The help for the last of these commands is asked for. -/
  | help (commands : List CommandSpec)
  | version

namespace OptionSpec

/-- The option that asks for help. -/
def help : OptionSpec :=
  { long := "help", short? := some 'h', kind := .help, description := "Print help" }

/-- Whether the option takes a value. -/
def takesValue (o : OptionSpec) : Bool :=
  match o.kind with
  | .value _ => true
  | _ => false

end OptionSpec

namespace CommandSpec

/-- The name of a command. -/
def name : CommandSpec → String
  | mk name _ _ _ => name

/-- What a command does. -/
def description : CommandSpec → String
  | mk _ description _ _ => description

/-- The options of a command. -/
def options : CommandSpec → List OptionSpec
  | mk _ _ options _ => options

/-- The commands under a command. -/
def commands : CommandSpec → List CommandSpec
  | mk _ _ _ commands => commands

/-- The command under a command that has a name. -/
def command? (c : CommandSpec) (name : String) : Option CommandSpec :=
  c.commands.find? (·.name == name)

end CommandSpec

/-- Adds an option that was given, with its value. The path leads to the command. -/
def give (path : List CommandSpec) (o : OptionSpec) (value : String) (given : Given) :
    Except Stop Given :=
  match o.kind with
  | .help => .error (.help path)
  | .version => .error .version
  | .counter => .ok (given ++ [(o.long, value)])
  | .switch =>
    if (given.lookup o.long).isSome then .error .misuse else .ok (given ++ [(o.long, value)])
  | .value accepts =>
    if accepts value = false ∨ (given.lookup o.long).isSome then .error .misuse
    else .ok (given ++ [(o.long, value)])

/-- Reads letters that share a hyphen. Gives what was given by them, and the option that takes the
next word as its value, if there is one. -/
def readLetters (path : List CommandSpec) (options : List OptionSpec) (given : Given) :
    List Char → Except Stop (Given × Option OptionSpec)
  | [] => .ok (given, none)
  | letter :: letters =>
    match options.find? (·.short? == some letter) with
    | none => .error .misuse
    | some o =>
      if o.takesValue then
        match letters with
        | [] => .ok (given, some o)
        | '=' :: value => (give path o (String.ofList value) given).map (·, none)
        | value => (give path o (String.ofList value) given).map (·, none)
      else
        match give path o "" given with
        | .error stop => .error stop
        | .ok given => readLetters path options given letters

/-- Reads a word after two hyphens. -/
def readLong (path : List CommandSpec) (options : List OptionSpec) (given : Given)
    (word : List Char) : Except Stop (Given × Option OptionSpec) :=
  match options.find? (·.long.toList == word.takeWhile (· != '=')), word.dropWhile (· != '=') with
  | none, _ => .error .misuse
  | some o, [] =>
    if o.takesValue then .ok (given, some o) else (give path o "" given).map (·, none)
  | some o, _ :: value =>
    if o.takesValue then (give path o (String.ofList value) given).map (·, none)
    else .error .misuse

/-- Whether a word is an option, or the two hyphens after which there are none. -/
def isOption (word : String) : Bool :=
  match word.toList with
  | '-' :: _ :: _ => true
  | _ => false

/-- The path to a command that help is asked for. The path leads down from its head. -/
def helpFor (path : List CommandSpec) (c : CommandSpec) : List String → Stop
  | [] => .help path
  | word :: words =>
    match c.command? word with
    | some inner => helpFor (path ++ [inner]) inner words
    | none => .misuse

/-- Ends a command line at a command. -/
def finish (c : CommandSpec) (given : Given) : Except Stop (List (String × Given)) :=
  if c.commands.isEmpty = false then .error .misuse
  else if c.options.all fun o => !o.isRequired || (given.lookup o.long).isSome then
    .ok [(c.name, given)]
  else .error .misuse

/-- Reads the words after a command. Gives the commands down the line, each with its options. -/
def readWords (path : List CommandSpec) (c : CommandSpec) (given : Given) :
    List String → Except Stop (List (String × Given))
  | [] => finish c given
  | word :: words =>
    match c.command? word with
    | some inner =>
      (readWords (path ++ [inner]) inner [] words).map fun below => (c.name, given) :: below
    | none =>
      if word = "help" ∧ c.commands.isEmpty = false then .error (helpFor path c words)
      else if word = "--" then if words.isEmpty then finish c given else .error .misuse
      else if isOption word = false then .error .misuse
      else
        let read := match word.toList with
          | '-' :: '-' :: long => readLong path c.options given long
          | letters => readLetters path c.options given (letters.drop 1)
        match read with
        | .error stop => .error stop
        | .ok (given, none) => readWords path c given words
        | .ok (given, some o) =>
          match words with
          | [] => .error .misuse
          | value :: words =>
            if isOption value then .error .misuse
            else
              match give path o value given with
              | .error stop => .error stop
              | .ok given => readWords path c given words

/-- Reads the words of a command line. -/
def CommandSpec.read (c : CommandSpec) (words : List String) :
    Except Stop (List (String × Given)) :=
  readWords [c] c [] words

end TrialBoard.Cli
