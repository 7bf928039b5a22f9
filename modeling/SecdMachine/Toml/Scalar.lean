import SecdMachine.Numeral

/-!
Dotted keys of settings documents and how they are written in messages; numbers and times. Only
integers carry a value here; floats and times are checked for their form.
-/

namespace SecdMachine.Toml

abbrev Key := List String

def isBareKeyChar (char : Char) : Bool :=
  char.isAlphanum || char = '_' || char = '-'

namespace Key

def quotedChar (char : Char) : String :=
  if char = '"' then "\\\""
  else if char = '\\' then "\\\\"
  else
    match char.toNat with
    | 0x08 => "\\b"
    | 0x09 => "\\t"
    | 0x0A => "\\n"
    | 0x0C => "\\f"
    | 0x0D => "\\r"
    | code => if code < 0x20 || code = 0x7F then "\\u" ++ Text.hexadecimal 4 code else char.toString

def partText (part : String) : String :=
  if !part.isEmpty && part.toList.all isBareKeyChar then part
  else "\"" ++ String.join (part.toList.map quotedChar) ++ "\""

def text (key : Key) : String :=
  String.intercalate "." (key.map partText)

end Key

def underscoresBetween : Bool → List Char → Bool
  | afterDigit, [] => afterDigit
  | afterDigit, char :: rest =>
      if char = '_' && !afterDigit then false
      else underscoresBetween ((Numeral.digit? char).any (· < 16)) rest

def hasLeadingZero : List Char → Bool
  | '0' :: mark :: _ => mark ≠ 'b' && mark ≠ 'o' && mark ≠ 'x'
  | '-' :: '0' :: _ :: _ => true
  | '+' :: '0' :: _ :: _ => true
  | _ => false

def integer? (token : List Char) : Option Int64 :=
  if !underscoresBetween false token || hasLeadingZero token then none
  else (Numeral.integer token).toOption

def splitParts (cut : Char → Bool) : List Char → List Char → List (List Char)
  | current, [] => if current.isEmpty then [] else [current.reverse]
  | current, char :: rest =>
      if cut char then
        if current.isEmpty then splitParts cut [] rest
        else current.reverse :: splitParts cut [] rest
      else splitParts cut (char :: current) rest

def fraction? : List Char → Option (List Char × List Char)
  | '.' :: rest =>
      let digits := rest.takeWhile Char.isDigit
      if digits.isEmpty then none else some (digits, rest.dropWhile Char.isDigit)
  | rest => some ([], rest)

def exponent? : List Char → Option Int
  | [] => some 0
  | mark :: rest =>
      if mark ≠ 'e' && mark ≠ 'E' then none
      else
        let (negative, digits) :=
          match rest with
          | '-' :: digits => (true, digits)
          | '+' :: digits => (false, digits)
          | digits => (false, digits)
        if digits.isEmpty || !digits.all Char.isDigit then none
        else
          let number : Int := Nat.ofDigitChars 10 digits 0
          some (if negative then -number else number)

def fitsFloat (digits : List Char) (power : Int) : Bool :=
  let significant := digits.dropWhile (· = '0')
  let magnitude := power + significant.length
  if significant.isEmpty || magnitude < -400 then true
  else if magnitude > 400 then false
  else
    let number := Nat.ofDigitChars 10 significant 0
    let bound := Nat.pow 2 1024 - Nat.pow 2 970
    if power < 0 then number < bound * Nat.pow 10 (-power).toNat
    else number * Nat.pow 10 power.toNat < bound

def isDecimalFloat (token : List Char) : Bool :=
  let whole := token.takeWhile Char.isDigit
  if whole.isEmpty then false
  else
    match fraction? (token.dropWhile Char.isDigit) with
    | none => false
    | some (digits, rest) =>
        match exponent? rest with
        | none => false
        | some power => fitsFloat (whole ++ digits) (power - digits.length)

def isFloat (token : List Char) : Bool :=
  let unsigned :=
    match token with
    | '-' :: rest => rest
    | '+' :: rest => rest
    | rest => rest
  let parts := splitParts (fun char => char = '.' || char = 'e' || char = 'E') [] token
  parts.all (underscoresBetween false) && !(parts.head?.any hasLeadingZero) &&
    isDecimalFloat (unsigned.filter (· ≠ '_'))

def digits? (count : Nat) (text : List Char) : Option (Nat × List Char) :=
  let digits := text.take count
  if digits.length = count && digits.all Char.isDigit then
    some (Nat.ofDigitChars 10 digits 0, text.drop count)
  else none

def char? (char : Char) : List Char → Option (List Char)
  | first :: rest => if first = char then some rest else none
  | [] => none

def daysOf (year month : Nat) : Nat :=
  match month with
  | 2 => if year % 4 = 0 && (year % 100 ≠ 0 || year % 400 = 0) then 29 else 28
  | 4 => 30
  | 6 => 30
  | 9 => 30
  | 11 => 30
  | _ => 31

def date? (text : List Char) : Option (List Char) := do
  let (year, text) ← digits? 4 text
  let (month, text) ← digits? 2 (← char? '-' text)
  let (day, text) ← digits? 2 (← char? '-' text)
  if 1 ≤ month && month ≤ 12 && 1 ≤ day && day ≤ daysOf year month then some text else none

def time? (text : List Char) : Option (List Char) := do
  let (hour, text) ← digits? 2 text
  let (minute, text) ← digits? 2 (← char? ':' text)
  if hour ≥ 24 || minute ≥ 60 then none
  match text with
  | ':' :: text =>
      let (second, text) ← digits? 2 text
      if second ≥ 60 then none
      let (_, text) ← fraction? text
      some text
  | text => some text

def isOffset : List Char → Bool
  | [] => true
  | ['Z'] => true
  | sign :: text =>
      if sign ≠ '+' && sign ≠ '-' then false
      else
        match digits? 2 text with
        | none => false
        | some (hours, text) =>
            match (char? ':' text).bind (digits? 2) with
            | some (minutes, []) => hours ≤ 24 && minutes ≤ 60
            | _ => false

def isInstant (token : List Char) : Bool :=
  let token := token.map fun char =>
    if char = 'z' then 'Z' else if char = 't' || char = ' ' then 'T' else char
  match date? token with
  | some [] => true
  | some ('T' :: rest) => (time? rest).any isOffset
  | some _ => false
  | none => (time? token).any List.isEmpty

end SecdMachine.Toml
