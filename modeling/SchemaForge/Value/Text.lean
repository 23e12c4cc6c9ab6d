import SchemaForge.Number.Shortest
import SchemaForge.Text.Printable
import SchemaForge.Value.Basic

/-!
# Values as text

How a value is displayed inside other text. Numbers in generated code are written exactly, and all
other values in a form of their own: booleans as `True` and `False`, nothing as `None`, texts in
quotes inside lists and mappings.

* `Value.display`: a value on its own; a text is shown as it is.
* `Value.inspect`: a value inside another; a text is quoted.
* `Value.number`: a number in generated code; a double with an integral value has no fraction.
-/

namespace SchemaForge

namespace Text

/-- The last `width` hexadecimal digits of a number. -/
def hex (width : Nat) (n : Nat) : List Char :=
  let digits := Nat.toDigits 16 n
  List.replicate (width - digits.length) '0' ++ digits

/-- A character inside a quoted display. -/
def inspectChar (quote c : Char) : List Char :=
  if c == quote || c == '\\' then ['\\', c]
  else if c == '\n' then ['\\', 'n']
  else if c == '\r' then ['\\', 'r']
  else if c == '\t' then ['\\', 't']
  else if isPrintable c then [c]
  else if c.toNat < 0x100 then '\\' :: 'x' :: hex 2 c.toNat
  else if c.toNat < 0x10000 then '\\' :: 'u' :: hex 4 c.toNat
  else '\\' :: 'U' :: hex 8 c.toNat

/-- A text in single quotes, or in double quotes when it holds single ones only. -/
def inspect (s : String) : String :=
  let cs := s.toList
  let quote := if cs.contains '\'' && !cs.contains '"' then '"' else '\''
  String.ofList (quote :: cs.flatMap (inspectChar quote) ++ [quote])

/-- A number with leading zeros. -/
def padded (width n : Nat) : String :=
  let digits := Nat.toDigits 10 n
  String.ofList (List.replicate (width - digits.length) '0' ++ digits)

end Text

namespace Moment

/-- An offset as sign, hours and minutes. -/
def offsetText (minutes : Int) : String :=
  (if minutes < 0 then "-" else "+") ++ Text.padded 2 (minutes.natAbs / 60) ++ ":"
    ++ Text.padded 2 (minutes.natAbs % 60)

/-- A day as `2020-01-01`, a time after it as `2020-01-01 10:00:00+00:00`. -/
def display (m : Moment) : String :=
  let day := Text.padded 4 m.year ++ "-" ++ Text.padded 2 m.month ++ "-" ++ Text.padded 2 m.day
  match m.time with
  | none => day
  | some (hour, minute, second, micro) =>
    day ++ " " ++ Text.padded 2 hour ++ ":" ++ Text.padded 2 minute ++ ":" ++ Text.padded 2 second
      ++ (if micro == 0 then "" else "." ++ Text.padded 6 micro)
      ++ (m.offset.map offsetText).getD ""

/-- An offset as a distance in days and seconds. -/
def inspectOffset (minutes : Int) : String :=
  if minutes == 0 then "datetime.timezone.utc"
  else
    let seconds := minutes * 60
    let days := seconds.fdiv 86400
    let rest := seconds.fmod 86400
    let parts := (if days == 0 then [] else ["days=" ++ toString days])
      ++ (if rest == 0 then [] else ["seconds=" ++ toString rest])
    "datetime.timezone(datetime.timedelta(" ++ ", ".intercalate parts ++ "))"

/-- A moment inside another value. -/
def inspect (m : Moment) : String :=
  let day := [toString m.year, toString m.month, toString m.day]
  match m.time with
  | none => "datetime.date(" ++ ", ".intercalate day ++ ")"
  | some (hour, minute, second, micro) =>
    let fraction := if micro == 0 then [] else [toString micro]
    let seconds := if micro == 0 && second == 0 then [] else [toString second]
    let offset := (m.offset.map fun minutes => "tzinfo=" ++ inspectOffset minutes).toList
    "datetime.datetime("
      ++ ", ".intercalate (day ++ [toString hour, toString minute] ++ seconds ++ fraction ++ offset)
      ++ ")"

end Moment

namespace Atom

/-- A byte inside a quoted display. -/
def inspectByte (quote : Char) (b : UInt8) : List Char :=
  let c := Char.ofNat b.toNat
  if c == quote || c == '\\' then ['\\', c]
  else if c == '\n' then ['\\', 'n']
  else if c == '\r' then ['\\', 'r']
  else if c == '\t' then ['\\', 't']
  else if 0x20 ≤ b.toNat && b.toNat < 0x7f then [c]
  else '\\' :: 'x' :: Text.hex 2 b.toNat

/-- Bytes as a quoted text with a mark before it. -/
def inspectBytes (bytes : List UInt8) : String :=
  let quote := if bytes.contains 39 && !bytes.contains 34 then '"' else '\''
  String.ofList ('b' :: quote :: bytes.flatMap (inspectByte quote) ++ [quote])

/-- An atom inside another value. -/
def inspect : Atom → String
  | .null => "None"
  | .bool b => if b then "True" else "False"
  | .int n => toString n
  | .float d => d.text
  | .str s => Text.inspect s
  | .moment m => m.inspect
  | .bytes b => inspectBytes b

/-- An atom on its own. -/
def display : Atom → String
  | .str s => s
  | .moment m => m.display
  | a => a.inspect

end Atom

namespace Value

mutual

/-- A value inside another one. -/
def inspect : Value → String
  | .atom a => a.inspect
  | .list items => "[" ++ ", ".intercalate (inspectItems items) ++ "]"
  | .map entries => "\x7b" ++ ", ".intercalate (inspectEntries entries) ++ "\x7d"

/-- The values of a list. -/
def inspectItems : List Value → List String
  | [] => []
  | v :: rest => v.inspect :: inspectItems rest

/-- The entries of a mapping. -/
def inspectEntries : List (Atom × Value) → List String
  | [] => []
  | (k, v) :: rest => (k.inspect ++ ": " ++ v.inspect) :: inspectEntries rest

end

/-- A value on its own. -/
def display : Value → String
  | .atom a => a.display
  | v => v.inspect

/-- A value where generated code holds a number: a double with an integral value is written as that
integer, any other value as it is displayed. -/
def number : Value → String
  | .atom (.float d) =>
    match d.toInt? with
    | some n => toString n
    | none => d.text
  | v => v.display

end Value

end SchemaForge
