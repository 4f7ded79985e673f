import TrialBoard.Cli.Options

/-!
# Help

The help for a command says what it does and how it is called, and lists the commands under it and
its options in two columns.
-/

namespace TrialBoard.Cli

/-- The name of an option's value. -/
def OptionSpec.placeholder (o : OptionSpec) : String :=
  "<" ++ o.long.map (fun c => if c = '-' then '_' else c.toUpper) ++ ">"

/-- How an option is written, without its letter. -/
def OptionSpec.shown (o : OptionSpec) : String :=
  match o.kind with
  | .value _ => "--" ++ o.long ++ " " ++ o.placeholder
  | .counter => "--" ++ o.long ++ "..."
  | _ => "--" ++ o.long

/-- How an option is written, with its letter. -/
def OptionSpec.label (o : OptionSpec) : String :=
  match o.short? with
  | some letter => "-" ++ letter.toString ++ ", " ++ o.shown
  | none => "    " ++ o.shown

/-- What an option does, with its default. -/
def OptionSpec.details (o : OptionSpec) : String :=
  match o.default? with
  | some value => o.description ++ " [default: " ++ value ++ "]"
  | none => o.description

/-- The command that gives help, as it is listed. -/
def helpRow : String × String :=
  ("help", "Print this message or the help of the given subcommand(s)")

/-- Two columns. -/
def columns (rows : List (String × String)) : String :=
  let width := rows.foldl (fun width (left, _) => max width left.length) 0
  String.join (rows.map fun (left, right) =>
    "  " ++ left ++ String.ofList (List.replicate (width - left.length + 2) ' ') ++ right ++ "\n")

/-- How a command is called. The path leads to it. -/
def usage (path : List CommandSpec) (c : CommandSpec) : String :=
  let isPlain (o : OptionSpec) : Bool :=
    match o.kind with
    | .help => false
    | .version => false
    | _ => !o.isRequired
  " ".intercalate (path.map (·.name)
    ++ (if c.options.any isPlain then ["[OPTIONS]"] else [])
    ++ (c.options.filter (·.isRequired)).map (·.shown)
    ++ (if c.commands.isEmpty then [] else ["<COMMAND>"]))

/-- The help for the last command of a path. -/
def helpText (path : List CommandSpec) : String :=
  match path.getLast? with
  | none => ""
  | some c =>
    c.description ++ "\n\nUsage: " ++ usage path c ++ "\n"
      ++ (if c.commands.isEmpty then ""
        else "\nCommands:\n"
          ++ columns (c.commands.map (fun c => (c.name, c.description)) ++ [helpRow]))
      ++ "\nOptions:\n" ++ columns (c.options.map fun o => (o.label, o.details))

end TrialBoard.Cli
