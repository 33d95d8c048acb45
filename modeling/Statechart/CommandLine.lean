import Statechart.Settings

/-!
# Command line

Arguments are read from left to right. A help flag ends the reading; before it, every
argument has to be an option with a value that it accepts, given at most once. What
starts with a hyphen is never the value of the option before it.
-/

namespace Statechart

structure CommandOptions where
  settingsFile : Option String := none
  variant : Option MissionVariant := none
  escalationMillis : Option UInt64 := none
  deriving DecidableEq

inductive ValueOption
  | settingsFile
  | variant
  | escalation
  deriving DecidableEq

inductive Argument
  | help
  /-- Only positions may follow, and there are none. -/
  | noMoreOptions
  /-- An option whose value is the next argument. -/
  | awaiting (option : ValueOption)
  | given (option : ValueOption) (value : String)
  | unknown

inductive CommandRequest
  | help
  | run (options : CommandOptions)
  deriving DecidableEq

namespace ValueOption

def ofName? (name : String) : Option ValueOption :=
  if name = "config" then some .settingsFile
  else if name = "variant" then some .variant
  else if name = "escalation-ms" then some .escalation
  else none

end ValueOption

namespace Argument

def ofLong (body : List Char) : Argument :=
  let name := String.ofList (body.takeWhile (· ≠ '='))
  match ValueOption.ofName? name, body.dropWhile (· ≠ '=') with
  | some option, _ :: value => .given option (String.ofList value)
  | some option, [] => .awaiting option
  | none, [] => if name = "help" then .help else .unknown
  | none, _ :: _ => .unknown

def ofShort : List Char → Argument
  | 'h' :: _ => .help
  | ['c'] => .awaiting .settingsFile
  | 'c' :: '=' :: value => .given .settingsFile (String.ofList value)
  | 'c' :: value => .given .settingsFile (String.ofList value)
  | _ => .unknown

def ofText (text : String) : Argument :=
  match text.toList with
  | ['-', '-'] => .noMoreOptions
  | '-' :: '-' :: body => ofLong body
  | '-' :: head :: body => ofShort (head :: body)
  | _ => .unknown

/-- Whether an argument may be the value of the option before it. -/
def isValue (text : String) : Bool :=
  match text.toList with
  | '-' :: _ :: _ => false
  | _ => true

end Argument

/-- A decimal number that fits a word, with a plus sign if one likes. -/
def wordOfText? (text : String) : Option UInt64 :=
  let digits :=
    match text.toList with
    | '+' :: rest => rest
    | all => all
  if digits.isEmpty || !digits.all Char.isDigit then none
  else
    let n := digits.foldl (fun n c => 10 * n + (c.toNat - '0'.toNat)) 0
    if n < 18_446_744_073_709_551_616 then some (.ofNat n) else none

namespace CommandOptions

def assign? (options : CommandOptions) (value : String) :
    ValueOption → Option CommandOptions
  | .settingsFile =>
    if options.settingsFile.isSome || value.isEmpty then none
    else some { options with settingsFile := some value }
  | .variant =>
    if options.variant.isSome then none
    else if value = "event-driven" then some { options with variant := some .eventDriven }
    else if value = "timed-escalation" then some { options with variant := some .timedEscalation }
    else none
  | .escalation =>
    if options.escalationMillis.isSome then none
    else (wordOfText? value).map fun millis => { options with escalationMillis := some millis }

/-- Reads arguments after some options have been read. -/
def readOn? (options : CommandOptions) : List String → Option CommandRequest
  | [] => some (.run options)
  | argument :: rest =>
    match Argument.ofText argument with
    | .help => some .help
    | .noMoreOptions => if rest.isEmpty then some (.run options) else none
    | .given option value => (options.assign? value option).bind fun options => options.readOn? rest
    | .awaiting option =>
      match rest with
      | [] => none
      | value :: rest =>
        if Argument.isValue value then
          (options.assign? value option).bind fun options => options.readOn? rest
        else none
    | .unknown => none

def read? (arguments : List String) : Option CommandRequest := readOn? {} arguments

def override (options : CommandOptions) (settings : Settings) : Settings :=
  { settings with
    variant := options.variant.getD settings.variant
    escalationMillis := options.escalationMillis.getD settings.escalationMillis }

/-- The settings of a run: those of the file, or the defaults, changed by the options. -/
def settings (options : CommandOptions) (read : String → Except String String) :
    Except SettingsError Settings :=
  match options.settingsFile with
  | none => .ok (options.override {})
  | some path => (Settings.ofFile path (read path)).map options.override

def usage : String :=
  String.intercalate "\n"
    ["Run the pasture sentinel mission statechart", "",
      "Usage: sentinel-cli [OPTIONS]", "",
      "Options:",
      "  -c, --config <CONFIG>    JSON config file",
      "      --variant <VARIANT>  Mission variant, overriding the config file " ++
        "[possible values: event-driven, timed-escalation]",
      "      --escalation-ms <ESCALATION_MS>",
      "                           Escalation delay in milliseconds for the timed variant",
      "  -h, --help               Print help"]

end CommandOptions

end Statechart
