import Propositional.Lexeme

/-!
# Arguments of the command

The command takes four flags, each at most once, and formulas. After `--` every argument is a
formula; before it, everything that starts with a hyphen must be a flag, except a lone hyphen, which
is a formula too. Arguments are looked at from left to right and the first one that settles the
matter does so: an argument that cannot stand where it stands, or a question about the program.
-/

namespace Propositional.Command

/-- A flag of the command. -/
inductive Flag where
  /-- Read `T` and `F` at the start of a token as constants -/
  | strict
  /-- Drop units from normal forms -/
  | foldIdentities
  /-- Show the outline of each formula -/
  | ast
  /-- Compare each normal form with its formula under all assignments -/
  | check
  deriving DecidableEq, Repr

/-- The flag that an argument is. -/
def Flag.ofArgument? : String → Option Flag
  | "--strict" => some strict
  | "--fold-identities" => some foldIdentities
  | "--ast" => some ast
  | "--check" => some check
  | _ => none

/-- What the flags choose. -/
structure Options where
  /-- How a `T` or `F` at the start of a token is read -/
  mode : LexMode
  /-- Whether normal forms are made without units -/
  dropUnits : Bool
  /-- Whether the outline of each formula is shown -/
  showOutline : Bool
  /-- Whether each normal form is compared with its formula -/
  verify : Bool
  deriving DecidableEq, Repr

/-- The choices made by a list of flags. -/
def Options.ofFlags (flags : List Flag) : Options where
  mode := if .strict ∈ flags then .strict else .permissive
  dropUnits := .foldIdentities ∈ flags
  showOutline := .ast ∈ flags
  verify := .check ∈ flags

/-! ### Questions about the program -/

/-- The name of the program. -/
def programName : String := "propdnf"

/-- The version of the program. -/
def programVersion : String := "0.1.0"

/-- What can be asked about the program itself. -/
inductive Question where
  /-- How it is used -/
  | help
  /-- Which version it is -/
  | version
  deriving DecidableEq, Repr

namespace Question

/-- The question that an argument is. What follows the letter of a short one does not matter. -/
def ofArgument? (argument : String) : Option Question :=
  if argument = "--help" ∨ "-h".toList.isPrefixOf argument.toList then some help
  else if argument = "--version" ∨ "-V".toList.isPrefixOf argument.toList then some version
  else none

/-- How the program is used, with lines of a hundred characters at most. -/
def usage : List String := [
  "Parser and disjunctive normal form converter for propositional formulas",
  "",
  "Usage: " ++ programName ++ " [OPTIONS] [FORMULAS]...",
  "",
  "Arguments:",
  "  [FORMULAS]...  The formulas to convert. If none are given, one formula is read from every",
  "                 non-empty line of stdin",
  "",
  "Options:",
  "      --strict           Always read `T` and `F` at the start of a token as constants. " ++
    "Without this",
  "                         flag, `TFA` is the variable `TFA`; with it, `TFA` is rejected",
  "      --fold-identities  Drop `F` from disjunctions and `T` from conjunctions during " ++
    "normalization",
  "      --ast              Print the parsed tree before its normal form",
  "      --check            Verify by truth table that the normal form is equivalent to the input.",
  "                         Takes time exponential in the number of variables",
  "  -h, --help             Print help",
  "  -V, --version          Print version"]

/-- The answer to a question. -/
def answer : Question → String
  | help => String.join (usage.map (· ++ "\n"))
  | version => programName ++ " " ++ programVersion ++ "\n"

end Question

/-! ### Requests -/

/-- What the arguments ask for. -/
inductive Request where
  /-- The arguments make no sense -/
  | misuse
  /-- The answer to a question about the program -/
  | ask (question : Question)
  /-- The normal forms of formulas; if there are none, of those in the input -/
  | convert (flags : List Flag) (formulas : List String)
  deriving DecidableEq, Repr

namespace Request

/-- The same request with one more formula in front. -/
def withFormula (formula : String) : Request → Request
  | convert flags formulas => convert flags (formula :: formulas)
  | other => other

/-- Whether an argument has the form of a flag. -/
def isHyphenated (argument : String) : Bool :=
  "-".toList.isPrefixOf argument.toList && argument ≠ "-"

/-- The request of the arguments that follow the given flags. -/
def readAfter (seen : List Flag) : List String → Request
  | [] => convert seen []
  | argument :: rest =>
    if argument = "--" then convert seen rest
    else
      match Flag.ofArgument? argument with
      | some flag => if flag ∈ seen then misuse else readAfter (seen ++ [flag]) rest
      | none =>
        match Question.ofArgument? argument with
        | some question => ask question
        | none =>
          if isHyphenated argument then misuse
          else (readAfter seen rest).withFormula argument

/-- **What the arguments of the command ask for.** -/
def ofArguments (arguments : List String) : Request :=
  readAfter [] arguments

end Request

end Propositional.Command
