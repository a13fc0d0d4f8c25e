import Storyline.Command.Number

/-!
# Flags

A flag is given as `--name value` or `--name=value`, and by its letter if it has one; letters of
switches may be put together.  Arguments that are not flags may stand anywhere between them, and
after `--` there are no more flags.
-/

namespace Storyline.Command

/-- What a flag takes. -/
inductive FlagKind where
  | text
  /-- On or off; on if it is given without a value. -/
  | switch
  | integer
  | duration
deriving DecidableEq, Repr, Inhabited

/-- A flag. -/
structure Flag where
  name : String
  kind : FlagKind
  /-- The value it has if it is not given. -/
  preset : Bytes := []
  letter : Option Char := none
deriving DecidableEq, Repr, Inhabited

namespace Flag

/-- Whether a flag may be given without a value. -/
def isSwitch (f : Flag) : Bool := f.kind = .switch

/-- A flag as messages name it. -/
def shown (f : Flag) : Bytes :=
  match f.letter with
  | some c => "-" ++ Bytes.ofChars [c] ++ ", --" ++ Bytes.ofString f.name
  | none => "--" ++ Bytes.ofString f.name

/-- The flag with a name. -/
def named? (flags : List Flag) (name : Bytes) : Option Flag :=
  flags.find? fun f => Bytes.ofString f.name = name

/-- The flag with a letter. -/
def lettered? (flags : List Flag) (b : UInt8) : Option Flag :=
  flags.find? fun f => f.letter.any fun c => c.toNat = b.toNat

end Flag

/-! ## Failures -/

/-- Why a value does not fit its flag. -/
inductive ValueFault where
  | switch
  | integer (f : IntegerFault)
  | duration (f : DurationFault)
deriving DecidableEq, Repr, Inhabited

/-- What is said of a value that does not fit. -/
def ValueFault.message (value : Bytes) : ValueFault → Bytes
  | switch => "strconv.ParseBool: parsing " ++ Text.quoted value ++ ": invalid syntax"
  | integer f => "strconv.ParseInt: parsing " ++ Text.quoted value ++ ": " ++ match f with
    | .malformed => "invalid syntax"
    | .outOfRange => "value out of range"
  | duration f => f.message value

/-- Why flags cannot be read. -/
inductive FlagError where
  | malformed (arg : Bytes)
  | unknown (name : Bytes)
  | unknownLetter (letter : UInt8) (letters : Bytes)
  | noValue (name : Bytes)
  | noLetterValue (letter : UInt8) (letters : Bytes)
  | badValue (flag : Flag) (value : Bytes) (fault : ValueFault)
deriving DecidableEq, Repr, Inhabited

/-- A letter as messages show it; a byte outside ASCII shows as the character that its two-byte
spelling starts with. -/
def shownLetter (b : UInt8) : Bytes :=
  Text.quotedChar (if b < 0x80 then Char.ofNat b.toNat
    else if b < 0xC0 then Char.ofNat 0xC2 else Char.ofNat 0xC3)

/-- The wording of a failure. -/
def FlagError.message : FlagError → Bytes
  | malformed arg => "bad flag syntax: " ++ arg
  | unknown name => "unknown flag: --" ++ name
  | unknownLetter b letters => "unknown shorthand flag: " ++ shownLetter b ++ " in -" ++ letters
  | noValue name => "flag needs an argument: --" ++ name
  | noLetterValue b letters => "flag needs an argument: " ++ shownLetter b ++ " in -" ++ letters
  | badValue f value fault =>
    "invalid argument " ++ Text.quoted value ++ " for " ++ Text.quoted f.shown ++ " flag: "
      ++ fault.message value

/-! ## Values -/

/-- Whether a text says on or off. -/
def readSwitch? (s : Bytes) : Option Bool :=
  let on : List Bytes := ["1", "t", "T", "true", "TRUE", "True"]
  let off : List Bytes := ["0", "f", "F", "false", "FALSE", "False"]
  if on.contains s then some true else if off.contains s then some false else none

/-- What is wrong with a value for a flag. -/
def FlagKind.fault? (k : FlagKind) (value : Bytes) : Option ValueFault :=
  match k with
  | text => none
  | switch => if (readSwitch? value).isSome then none else some .switch
  | integer => match readInteger value with
    | .ok _ => none
    | .error f => some (.integer f)
  | duration => match readDuration value with
    | .ok _ => none
    | .error f => some (.duration f)

/-- The flags that a command has, and the values that were given, the last first. -/
structure Options where
  flags : List Flag
  given : List (String × Bytes) := []
deriving DecidableEq, Repr, Inhabited

namespace Options

/-- Gives a flag a value. -/
def set (o : Options) (f : Flag) (value : Bytes) : Except FlagError Options :=
  match f.kind.fault? value with
  | some fault => .error (.badValue f value fault)
  | none => .ok { o with given := (f.name, value) :: o.given }

/-- The value of a flag, as it was written. -/
def text (o : Options) (name : String) : Bytes :=
  (o.given.lookup name).getD (((Flag.named? o.flags name).map (·.preset)).getD [])

/-- Whether a switch is on. -/
def isOn (o : Options) (name : String) : Bool := (readSwitch? (o.text name)).getD false

/-- The value of a flag that takes an integer. -/
def integer (o : Options) (name : String) : Int := (readInteger (o.text name)).toOption.getD 0

/-- The value of a flag that takes a duration, in nanoseconds. -/
def duration (o : Options) (name : String) : Int := (readDuration (o.text name)).toOption.getD 0

end Options

/-! ## Reading -/

/-- The value that a switch has without one. -/
def switchedOn : Bytes := "true"

/-- Letters that are passed over. -/
def testLetters : Bytes := "test."

/-- Reads letters that stand together.  The last one may wait for the next argument. -/
def readLetters (o : Options) : Bytes → Except FlagError (Options × Option Flag)
  | [] => .ok (o, none)
  | b :: rest =>
    if testLetters.isPrefixOf (b :: rest) then .ok (o, none)
    else match Flag.lettered? o.flags b with
      | none => .error (.unknownLetter b (b :: rest))
      | some f =>
        let last (value : Bytes) : Except FlagError (Options × Option Flag) :=
          (o.set f value).map fun o => (o, none)
        if rest.head? = some ('=' : UInt8) && 1 < rest.length then last (rest.drop 1)
        else if f.isSwitch then
          match o.set f switchedOn with
          | .ok o => readLetters o rest
          | .error e => .error e
        else if rest.isEmpty then .ok (o, some f)
        else last rest

/-- Reads a flag that is given by its name.  It may wait for the next argument. -/
def readName (o : Options) (arg : Bytes) : Except FlagError (Options × Option Flag) := do
  let body := arg.drop 2
  if body.head? = some ('-' : UInt8) || body.head? = some ('=' : UInt8) then
    throw (.malformed arg)
  let (name, value?) := match Bytes.cut? "=" body with
    | some (name, value) => (name, some value)
    | none => (body, none)
  match Flag.named? o.flags name, value? with
  | none, _ => throw (.unknown name)
  | some f, some value => return (← o.set f value, none)
  | some f, none => if f.isSwitch then return (← o.set f switchedOn, none) else return (o, some f)

/-- What is said if there is no argument to wait for. -/
def noValueFor (arg : Bytes) : FlagError :=
  if (Bytes.ofString "--").isPrefixOf arg then .noValue (arg.drop 2)
  else .noLetterValue (arg.getLastD 0) (arg.drop (arg.length - 1))

/-- Reads arguments; gives the options and the arguments that are not flags. -/
def readArgs (o : Options) : List Bytes → Except FlagError (Options × List Bytes)
  | [] => .ok (o, [])
  | arg :: rest =>
    if arg.head? != some ('-' : UInt8) || arg.length = 1 then
      (readArgs o rest).map fun r => (r.1, arg :: r.2)
    else if arg = ("--" : Bytes) then .ok (o, rest)
    else
      match if (arg.drop 1).head? = some ('-' : UInt8) then readName o arg
        else readLetters o (arg.drop 1) with
      | .error e => .error e
      | .ok (o, none) => readArgs o rest
      | .ok (o, some f) =>
        match rest with
        | [] => .error (noValueFor arg)
        | value :: rest =>
          match o.set f value with
          | .ok o => readArgs o rest
          | .error e => .error e

end Storyline.Command
