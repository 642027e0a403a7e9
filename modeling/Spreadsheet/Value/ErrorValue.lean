import Spreadsheet.Grid.Address
import Spreadsheet.Text.Ascii
import Spreadsheet.Text.Blank
import Spreadsheet.Numeric.Decimal

/-!
# Error values

A formula that cannot be computed has an error for its value. An error has a kind, shown in the cell as
a code such as `#REF!`, and mostly a message; once a formula reads a cell with an error it also says
where the error came from. Reading an error never stacks messages: the first reader folds kind and
message of the root into its own message, and later readers pass that on as it is.

`Cause` lists every way in which the library itself finds an error; `Cause.kind` and `Cause.message`
are the only places where kinds and wordings are chosen.
-/

namespace Spreadsheet

/-- The kinds of error a cell can hold. -/
inductive ErrorKind where
  /-- The text of a formula could not be read. -/
  | malformed
  /-- A reference names no sheet, no name or no cell of the grid. -/
  | invalidReference
  /-- A cell that was read holds an error. -/
  | referencedCell
  /-- A cell reads itself, directly or through others. -/
  | circular
  | unknownFunction
  | argumentCount
  | argumentType
  /-- No number is the result, as in a division by zero. -/
  | domain
  deriving DecidableEq, Repr

namespace ErrorKind

/-- The kinds in the order in which their codes are tried. -/
def all : List ErrorKind :=
  [.malformed, .invalidReference, .referencedCell, .circular, .unknownFunction, .argumentCount,
    .argumentType, .domain]

/-- The code that stands for a kind. -/
def code : ErrorKind → String
  | .malformed => "#SYNTAX!"
  | .invalidReference => "#REF!"
  | .referencedCell => "#ERRCELL!"
  | .circular => "#CIRC!"
  | .unknownFunction => "#NAME?"
  | .argumentCount => "#ARGS!"
  | .argumentType => "#VALUE!"
  | .domain => "#NUM!"

/-- The kind with a code, in either case and with blanks around it. -/
def ofCode? (s : String) : Option ErrorKind :=
  all.find? fun kind => Text.sameAscii kind.code (Text.trimBlanks s)

end ErrorKind

/-- The cell where an error arose. -/
structure ErrorOrigin where
  sheet : Option String
  col : Nat
  row : Nat
  deriving DecidableEq, Repr

/-- The cell of an origin, qualified by its sheet when that has a name. -/
def ErrorOrigin.text (o : ErrorOrigin) : String :=
  match o.sheet with
  | some sheet => sheet ++ "!" ++ (Grid.Address.plain o.col o.row).text
  | none => (Grid.Address.plain o.col o.row).text

/-- An error as the value of a cell. -/
structure ErrorValue where
  kind : ErrorKind
  message : Option String := none
  origin : Option ErrorOrigin := none
  deriving DecidableEq, Repr

namespace ErrorValue

/-- The error of a code written in a formula or given as data; it has no message. -/
def ofCode? (s : String) : Option ErrorValue :=
  (ErrorKind.ofCode? s).map fun kind => { kind }

/-- What the cell shows when an error is asked about: code, message and origin. -/
def text (e : ErrorValue) : String :=
  let message := match e.message with
    | some m => ": " ++ m
    | none => ""
  let origin := match e.origin with
    | some o => " [origin: " ++ o.text ++ "]"
    | none => ""
  e.kind.code ++ message ++ origin

/-- The error that a reader of the cell at `col`, `row` gets when that cell holds `e`. An error that
was itself read stays as it is; any other becomes the message, and the cell becomes the origin unless
the error already names one. -/
def propagated (e : ErrorValue) (sheet : Option String) (col row : Nat) : ErrorValue :=
  if e.kind = .referencedCell then e
  else
    { kind := .referencedCell
      message := some (match e.message with
        | some m => e.kind.code ++ ": " ++ m
        | none => e.kind.code)
      origin := some (e.origin.getD ⟨sheet, col, row⟩) }

/-- Reading twice is reading once. -/
theorem propagated_propagated (e : ErrorValue) (s s' : Option String) (c c' r r' : Nat) :
    (e.propagated s c r).propagated s' c' r' = e.propagated s c r := by
  by_cases h : e.kind = .referencedCell <;> simp [propagated, h]

theorem kind_propagated (e : ErrorValue) (s : Option String) (c r : Nat) :
    (e.propagated s c r).kind = .referencedCell := by
  by_cases h : e.kind = .referencedCell <;> simp [propagated, h]

end ErrorValue

/-- How many arguments a function takes. -/
inductive Arity where
  | exactly (n : Nat)
  | between (least most : Nat)
  | atLeast (n : Nat)
  deriving DecidableEq, Repr

/-- The number of arguments as a message has it. -/
def Arity.text : Arity → String
  | .exactly n => toString n
  | .between least most => toString least ++ " to " ++ toString most
  | .atLeast n => "at least " ++ toString n

/-- Every way in which evaluation itself finds an error. -/
inductive Cause where
  /-- The text of a formula could not be read; the complaint is the reader's. -/
  | unreadable (complaint : String)
  | malformedReference (written : String)
  | unknownSheet (written : String)
  | unknownName (written : String)
  | outsideGrid (written : String)
  /-- The error code left where a reference was deleted. -/
  | deletedReference
  | cycle
  | noFunction (name : String)
  | wrongCount (name : String) (expected : Arity) (got : Nat)
  | rangeAsValue (written : String)
  | rangeAsArgument
  | notANumber (text : String)
  | notLogical (text : String)
  | noLogicals (name : String)
  | negativeCount (n : Int)
  | startBelowOne (n : Int)
  | negativeLength (n : Int)
  | noUnary (symbol : String)
  | noBinary (symbol : String)
  | notFinite
  | divisionByZero
  | zeroToNegative
  | undefinedPower (base exponent : Float)
  | negativeRoot (x : Float)
  | averageOfNone
  | noMoment (serial : Float)
  | yearOutOfRange (year : Int)
  | dateOutOfRange
  | timeOutOfRange
  | negativeTime

namespace Cause

/-- The kind of error that a cause gives. -/
def kind : Cause → ErrorKind
  | unreadable _ | noUnary _ | noBinary _ => .malformed
  | malformedReference _ | unknownSheet _ | unknownName _ | outsideGrid _ | deletedReference =>
    .invalidReference
  | cycle => .circular
  | noFunction _ => .unknownFunction
  | wrongCount _ _ _ => .argumentCount
  | rangeAsValue _ | rangeAsArgument | notANumber _ | notLogical _ | noLogicals _ | negativeCount _
  | startBelowOne _ | negativeLength _ => .argumentType
  | notFinite | divisionByZero | zeroToNegative | undefinedPower _ _ | negativeRoot _ | averageOfNone
  | noMoment _ | yearOutOfRange _ | dateOutOfRange | timeOutOfRange | negativeTime => .domain

/-- The wording of a cause. -/
def message : Cause → String
  | unreadable complaint => complaint
  | malformedReference t => "'" ++ t ++ "' is not a valid reference"
  | unknownSheet t => "'" ++ t ++ "' refers to an unknown sheet"
  | unknownName t => "'" ++ t ++ "' is not a defined name"
  | outsideGrid t => "'" ++ t ++ "' lies outside the grid"
  | deletedReference => "reference no longer exists"
  | cycle => "circular reference"
  | noFunction name => "unknown function " ++ name
  | wrongCount name expected got =>
    name ++ " expects " ++ expected.text ++ " argument(s), got " ++ toString got
  | rangeAsValue t => "range " ++ t ++ " used where a single value is expected"
  | rangeAsArgument => "a multi-cell range was given where a single value is expected"
  | notANumber t => "cannot use \"" ++ t ++ "\" as a number"
  | notLogical t => "cannot use \"" ++ t ++ "\" as a logical value"
  | noLogicals name => name ++ " found no logical values"
  | negativeCount n => "character count " ++ toString n ++ " is negative"
  | startBelowOne n => "MID start " ++ toString n ++ " is below 1"
  | negativeLength n => "MID count " ++ toString n ++ " is negative"
  | noUnary symbol => "unknown unary operator '" ++ symbol ++ "'"
  | noBinary symbol => "unknown operator '" ++ symbol ++ "'"
  | notFinite => "result is not a finite number"
  | divisionByZero => "division by zero"
  | zeroToNegative => "zero raised to a negative power"
  | undefinedPower base exponent =>
    Numeric.plainText base ++ "^" ++ Numeric.plainText exponent ++ " is undefined"
  | negativeRoot x => "square root of negative number " ++ Numeric.plainText x
  | averageOfNone => "AVERAGE of no numbers"
  | noMoment serial => Numeric.plainText serial ++ " is not a valid date serial"
  | yearOutOfRange year => "year " ++ toString year ++ " is out of range"
  | dateOutOfRange => "date is out of range"
  | timeOutOfRange => "time is out of range"
  | negativeTime => "time is negative"

/-- The error value of a cause; where it arose is not known yet. -/
def toError (c : Cause) : ErrorValue :=
  { kind := c.kind, message := some c.message }

end Cause

end Spreadsheet
