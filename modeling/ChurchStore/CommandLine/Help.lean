import ChurchStore.CommandLine.Visible
import ChurchStore.Config

/-!
# Help texts

What the program prints about itself. Both help texts show the backend that the environment sets,
whether or not it can be read. Headings and the names of options are emphasized. This belongs to
the outer layer of the program, and nothing that is proved rests on it.
-/

namespace ChurchStore.CommandLine

def programName : String := "lambdacalc"

/-- The variable that sets the backend unless an option does. -/
def backendVariable : String := "LAMBDACALC_BACKEND"

/-- The variable that says what is logged. -/
def logVariable : String := "RUST_LOG"

/-- The variable that turns colours off. -/
def colorVariable : String := "NO_COLOR"

/-- The version line. -/
def versionText : String := programName ++ " 0.1.0\n"

/-- The line that shows how the program is called. -/
def usageLine : String :=
  Text.emphasized "Usage:" ++ " " ++ Text.emphasized programName ++ " [OPTIONS] [WORKLOAD]"

/-- What an option is set to if nothing else is said. -/
def defaultNote (value : String) : String := "[default: " ++ value ++ "]"

/-- The configuration without any options. -/
def standard : Config := {}

/-- The environment's part in the help for the backend. -/
def backendNote (backend? : Option String) : String :=
  "[env: " ++ backendVariable ++ "=" ++ backend?.getD "" ++ "]"

/-- A text whose lines, apart from the first, begin with the given number of blanks. -/
def hanging (width : Nat) (s : String) : String :=
  String.ofList (s.toList.flatMap fun c => if c = '\n' then c :: List.replicate width ' ' else [c])

/-- The names of an option that has a short one. -/
def bothNames (short long : String) : String :=
  Text.emphasized short ++ ", " ++ Text.emphasized long

/-- The names of an option without a short one, in line with the long names of the others. -/
def longName (long : String) : String := "    " ++ Text.emphasized long

/-- The help on one line for each option. -/
def shortHelp (backend? : Option String) : String :=
  "Fold Church numerals built from closures\n\n" ++
  usageLine ++ "\n\n" ++
  Text.emphasized "Arguments:" ++ "\n" ++
  "  [WORKLOAD]  Pass 'n9' to time N9^N9 (or 'nK' for NK^NK) instead of running the folding " ++
    "demo\n\n" ++
  Text.emphasized "Options:" ++ "\n" ++
  "  " ++ bothNames "-b" "--backend" ++ " <BACKEND>       " ++
    hanging 32 ("Memory backend: arena, refcounted or pooled " ++ backendNote backend? ++ " " ++
      defaultNote standard.backend.name) ++ "\n" ++
  "  " ++ bothNames "-c" "--count" ++ " <COUNT>           Numerals in the folding table " ++
    defaultNote (toString standard.numeralCount) ++ "\n" ++
  "  " ++ longName "--block-capacity" ++ " <BYTES>  Bytes per arena block " ++
    defaultNote (toString standard.blockCapacity) ++ "\n" ++
  "  " ++ bothNames "-r" "--repeat" ++ " <REPEAT>         Timed repetitions of the n9 workload " ++
    defaultNote (toString standard.repeatCount) ++ "\n" ++
  "  " ++ bothNames "-s" "--stats" ++
    "                   Print allocation counts per closure kind after the run\n" ++
  "  " ++ longName "--no-color" ++ "                Disable styled output\n" ++
  "  " ++ bothNames "-h" "--help" ++ "                    Print help (see more with '" ++
    Text.emphasized "--help" ++ "')\n" ++
  "  " ++ bothNames "-V" "--version" ++ "                 Print version\n"

/-- What is said at length about an option. -/
def paragraph (names about : String) : String :=
  "  " ++ names ++ "\n          " ++ hanging 10 about ++ "\n"

/-- The help at length. -/
def longHelp (backend? : Option String) : String :=
  "Fold Church numerals built from closures.\n\n" ++
  "Without a workload, folds the numerals N0.. and prints a few powers, sums and products.\n" ++
  "With the workload 'n9', times N9^N9 (any 'nK' times NK^NK).\n\n" ++
  usageLine ++ "\n\n" ++
  Text.emphasized "Arguments:" ++ "\n" ++
  paragraph "[WORKLOAD]"
    "Pass 'n9' to time N9^N9 (or 'nK' for NK^NK) instead of running the folding demo" ++ "\n" ++
  Text.emphasized "Options:" ++ "\n" ++
  "\n".intercalate [
    paragraph (bothNames "-b" "--backend" ++ " <BACKEND>")
      ("Memory backend: arena, refcounted or pooled\n\n" ++ backendNote backend? ++ "\n" ++
        defaultNote standard.backend.name),
    paragraph (bothNames "-c" "--count" ++ " <COUNT>")
      ("Numerals in the folding table\n\n" ++ defaultNote (toString standard.numeralCount)),
    paragraph (longName "--block-capacity" ++ " <BYTES>")
      ("Bytes per arena block\n\n" ++ defaultNote (toString standard.blockCapacity)),
    paragraph (bothNames "-r" "--repeat" ++ " <REPEAT>")
      ("Timed repetitions of the n9 workload\n\n" ++ defaultNote (toString standard.repeatCount)),
    paragraph (bothNames "-s" "--stats") "Print allocation counts per closure kind after the run",
    paragraph (longName "--no-color") "Disable styled output",
    paragraph (bothNames "-h" "--help")
      ("Print help (see a summary with '" ++ Text.emphasized "-h" ++ "')"),
    paragraph (bothNames "-V" "--version") "Print version"]

end ChurchStore.CommandLine
