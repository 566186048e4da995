/-!
# Records of what is being done

What happens while a text is read and a normal form is made can be followed through records: short
messages with a severity and an origin. A computation that leaves records is a value together with
them (`Propositional.Logged`), so that they are data like everything else and can be compared,
counted and filtered.
-/

namespace Propositional

/-- How much a record matters, from the most to the least. -/
inductive Severity where
  /-- Something failed -/
  | error
  /-- A result worth knowing -/
  | info
  /-- A step of the work -/
  | debug
  /-- A detail of a step -/
  | trace
  deriving DecidableEq, Repr

namespace Severity

/-- The place of a severity in the order, the most severe first. -/
def rank : Severity → Nat
  | error => 0
  | info => 1
  | debug => 2
  | trace => 3

/-- The name of a severity. -/
def label : Severity → String
  | error => "ERROR"
  | info => "INFO"
  | debug => "DEBUG"
  | trace => "TRACE"

/-- The name of a severity, filled up with spaces to the width of the longest. -/
def column (s : Severity) : String :=
  String.ofList (s.label.toList.rightpad 5 ' ')

/-- The severity down to which records are wanted by one who asks for the level of this name; errors
are always wanted, and other names ask for nothing else. -/
def ofName : String → Severity
  | "info" => info
  | "debug" => debug
  | "trace" => trace
  | _ => error

end Severity

/-- Which part of the program a record comes from. -/
inductive Origin where
  /-- The command that converts a batch of formulas -/
  | command
  /-- The cutting of texts into tokens -/
  | lexer
  /-- The reading of texts as formulas -/
  | parser
  /-- The making of normal forms -/
  | normalizer
  deriving DecidableEq, Repr

/-- The name of an origin in the log. -/
def Origin.path : Origin → String
  | command => "propdnf"
  | lexer => "propdnf::lex"
  | parser => "propdnf::parse"
  | normalizer => "propdnf::normal"

/-- A message about what has been done. -/
structure Record where
  /-- How much it matters -/
  severity : Severity
  /-- Where it comes from -/
  origin : Origin
  /-- What it says -/
  message : String
  deriving DecidableEq, Repr

/-- **A value and the records** left while it was computed, the oldest first. -/
structure Logged (α : Type) where
  /-- What was computed -/
  value : α
  /-- What was recorded -/
  records : List Record

namespace Logged

variable {α β : Type}

/-- A value without records. -/
def silent (a : α) : Logged α := ⟨a, []⟩

/-- A computation with records in front of its own. -/
def after (rs : List Record) (x : Logged α) : Logged α := ⟨x.value, rs ++ x.records⟩

/-- A function of the value, without records of its own. -/
def map (f : α → β) (x : Logged α) : Logged β := ⟨f x.value, x.records⟩

/-- A computation that goes on with the value of another. -/
def bind (x : Logged α) (f : α → Logged β) : Logged β := (f x.value).after x.records

/-- Several computations one after the other. -/
def gather (xs : List (Logged α)) : Logged (List α) := ⟨xs.map value, xs.flatMap records⟩

@[simp] theorem value_silent (a : α) : (silent a).value = a := rfl

@[simp] theorem records_silent (a : α) : (silent a).records = [] := rfl

@[simp] theorem value_after (rs : List Record) (x : Logged α) : (x.after rs).value = x.value := rfl

@[simp] theorem records_after (rs : List Record) (x : Logged α) :
    (x.after rs).records = rs ++ x.records := rfl

@[simp] theorem value_map (f : α → β) (x : Logged α) : (x.map f).value = f x.value := rfl

@[simp] theorem records_map (f : α → β) (x : Logged α) : (x.map f).records = x.records := rfl

@[simp] theorem value_bind (x : Logged α) (f : α → Logged β) :
    (x.bind f).value = (f x.value).value := rfl

@[simp] theorem records_bind (x : Logged α) (f : α → Logged β) :
    (x.bind f).records = x.records ++ (f x.value).records := rfl

@[simp] theorem value_gather (xs : List (Logged α)) : (gather xs).value = xs.map value := rfl

@[simp] theorem records_gather (xs : List (Logged α)) :
    (gather xs).records = xs.flatMap records := rfl

end Logged

end Propositional
