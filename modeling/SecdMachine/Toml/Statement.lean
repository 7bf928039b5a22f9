import SecdMachine.Text.Characters
import SecdMachine.Text.Utf8
import SecdMachine.Toml.Scalar

/-!
The statements of a settings document: table headings, headings of table arrays, and assignments.
This is the grammar alone; what the statements mean together is a matter of `Document`. Each rule
gives what it finds at the start of a text, and the text after it. Fuel bounds the nesting and the
number of parts by the length of the text.
-/

namespace SecdMachine.Toml

inductive Expression where
  | string (text : String)
  | integer (number : Int64)
  | boolean (value : Bool)
  | scalar
  | array (elements : List Expression)
  | table (entries : List (Key × Expression))

inductive Statement where
  | heading (key : Key)
  | arrayHeading (key : Key)
  | assignment (key : Key) (value : Expression)

def isSpace (char : Char) : Bool :=
  char = ' ' || char = '\t'

def isNewline (char : Char) : Bool :=
  char = '\n' || char = '\r'

def skipSpace (text : List Char) : List Char :=
  text.dropWhile isSpace

def skipLines : Bool → List Char → List Char
  | _, [] => []
  | inComment, char :: rest =>
      if inComment then skipLines (!isNewline char) rest
      else if isSpace char || isNewline char then skipLines false rest
      else if char = '#' then skipLines true rest
      else char :: rest

def isLegible : List Char → Bool
  | [] => true
  | ['\r'] => false
  | '\r' :: char :: rest => char = '\n' && isLegible (char :: rest)
  | char :: rest =>
      ((char.toNat ≥ 0x20 && char.toNat ≠ 0x7F) || char = '\t' || char = '\n') && isLegible rest

def charOfHex? (count : Nat) (text : List Char) : Option (Char × List Char) :=
  let digits := text.take count
  let code := digits.foldlM (fun code char =>
    ((Numeral.digit? char).filter (· < 16)).map (code * 16 + ·)) 0
  match code with
  | none => none
  | some code =>
      if digits.length = count && code.isValidChar then some (Char.ofNat code, text.drop count)
      else none

def escape? : List Char → Option (Char × List Char)
  | 'b' :: rest => some (Char.ofNat 0x08, rest)
  | 't' :: rest => some ('\t', rest)
  | 'n' :: rest => some ('\n', rest)
  | 'f' :: rest => some (Char.ofNat 0x0C, rest)
  | 'r' :: rest => some ('\r', rest)
  | 'e' :: rest => some (Char.ofNat 0x1B, rest)
  | '"' :: rest => some ('"', rest)
  | '\\' :: rest => some ('\\', rest)
  | 'x' :: rest => charOfHex? 2 rest
  | 'u' :: rest => charOfHex? 4 rest
  | 'U' :: rest => charOfHex? 8 rest
  | _ => none

def quotedString? : Nat → List Char → List Char → Option (String × List Char)
  | 0, _, _ => none
  | _, _, [] => none
  | fuel + 1, reversed, char :: rest =>
      if char = '"' then some (String.ofList reversed.reverse, rest)
      else if isNewline char then none
      else if char = '\\' then do
        let (char, rest) ← escape? rest
        quotedString? fuel (char :: reversed) rest
      else quotedString? fuel (char :: reversed) rest

def plainString? (text : List Char) : Option (String × List Char) :=
  let content := text.takeWhile fun char => char ≠ '\'' && !isNewline char
  match text.drop content.length with
  | '\'' :: rest => some (String.ofList content, rest)
  | _ => none

/-- The most quotes that may end a string over several lines: three close it, and two more may
belong to it, or three more right after an escaped backslash. -/
def mostClosingQuotes (afterBackslash : Bool) : Nat :=
  if afterBackslash then 6 else 5

/-- A string over several lines, after the opening quotes. Three quotes or more end it, of which all
but the last three belong to it, and there may not be too many. Escapes are read unless the quotes
are single; `afterBackslash` says whether the last thing read was an escaped backslash. -/
def longString? (quote : Char) :
    Nat → Bool → List Char → List Char → Option (String × List Char)
  | 0, _, _, _ => none
  | _, _, _, [] => none
  | fuel + 1, afterBackslash, reversed, char :: rest =>
      if char = quote then
        let quotes := rest.takeWhile (· = quote)
        if quotes.length < 2 then
          longString? quote fuel false (quotes ++ quote :: reversed) (rest.drop quotes.length)
        else if quotes.length + 1 > mostClosingQuotes afterBackslash then none
        else
          some (String.ofList ((quotes.drop 2) ++ reversed).reverse, rest.drop quotes.length)
      else if char = '\\' && quote = '"' then
        let blanks := rest.takeWhile fun char => isSpace char || isNewline char
        if blanks.contains '\n' then
          longString? quote fuel false reversed (rest.drop blanks.length)
        else do
          let (char, after) ← escape? rest
          longString? quote fuel (rest.head? = some '\\') (char :: reversed) after
      else longString? quote fuel false (char :: reversed) rest

def skipFirstNewline : List Char → List Char
  | '\n' :: rest => rest
  | '\r' :: '\n' :: rest => rest
  | text => text

def keyPart? (fuel : Nat) : List Char → Option (String × List Char)
  | '"' :: rest => quotedString? fuel [] rest
  | '\'' :: rest => plainString? rest
  | text =>
      let name := text.takeWhile isBareKeyChar
      if name.isEmpty then none else some (String.ofList name, text.drop name.length)

def key? : Nat → List Char → Option (Key × List Char)
  | 0, _ => none
  | fuel + 1, text => do
      let (part, rest) ← keyPart? (fuel + 1) (skipSpace text)
      match skipSpace rest with
      | '.' :: rest =>
          let (parts, rest) ← key? fuel rest
          return (part :: parts, rest)
      | rest => return ([part], rest)

def isFloatChar (char : Char) : Bool :=
  char.isDigit || ['_', '.', '-', '+', 'e', 'E'].contains char

def isInstantChar (char : Char) : Bool :=
  char.isDigit || ['-', ':', 'T', 't', ' ', '.', 'Z', 'z', '+'].contains char

def integerFrom (token rest : List Char) : Option (Expression × List Char) :=
  (integer? token).map fun number => (.integer number, rest)

def decimal? (sign text : List Char) : Option (Expression × List Char) :=
  let digits := text.takeWhile fun char => char.isDigit || char = '_'
  let rest := text.drop digits.length
  match rest with
  | char :: _ =>
      if char = '.' || char = 'e' || char = 'E' then
        let more := rest.takeWhile isFloatChar
        if isFloat (sign ++ digits ++ more) then some (.scalar, rest.drop more.length) else none
      else integerFrom (sign ++ digits) rest
  | [] => integerFrom (sign ++ digits) rest

def numberOrInstant? (text : List Char) : Option (Expression × List Char) :=
  let digits := text.takeWhile Char.isDigit
  match text.drop digits.length with
  | '-' :: _ | ':' :: _ =>
      let token := text.takeWhile isInstantChar
      let trimmed := (token.reverse.dropWhile (· = ' ')).reverse
      if isInstant trimmed then some (.scalar, text.drop token.length) else none
  | _ => decimal? [] text

def marked? (mark : Char) (base : Nat) (text : List Char) : Option (Expression × List Char) :=
  let isDigit := fun char => (Numeral.digit? char).any (· < base)
  if text.head?.any isDigit then
    let digits := text.takeWhile fun char => isDigit char || char = '_'
    integerFrom ('0' :: mark :: digits) (text.drop digits.length)
  else none

def signed? (sign : Char) : List Char → Option (Expression × List Char)
  | 'i' :: 'n' :: 'f' :: rest => some (.scalar, rest)
  | 'n' :: 'a' :: 'n' :: rest => some (.scalar, rest)
  | '0' :: 'b' :: _ => none
  | '0' :: 'o' :: _ => none
  | '0' :: 'x' :: _ => none
  | char :: rest => if char.isDigit then decimal? [sign] (char :: rest) else none
  | [] => none

def boolean? (text : List Char) : Option (Expression × List Char) :=
  let word := text.takeWhile Text.isLetter
  if word = "true".toList then some (.boolean true, text.drop 4)
  else if word = "false".toList then some (.boolean false, text.drop 5)
  else none

def stringFrom (found : Option (String × List Char)) : Option (Expression × List Char) :=
  found.map fun (text, rest) => (.string text, rest)

def scalar? (fuel : Nat) : List Char → Option (Expression × List Char)
  | '"' :: '"' :: '"' :: rest =>
      stringFrom (longString? '"' fuel false [] (skipFirstNewline rest))
  | '"' :: rest => stringFrom (quotedString? fuel [] rest)
  | '\'' :: '\'' :: '\'' :: rest =>
      stringFrom (longString? '\'' fuel false [] (skipFirstNewline rest))
  | '\'' :: rest => stringFrom (plainString? rest)
  | 'i' :: 'n' :: 'f' :: rest => some (.scalar, rest)
  | 'n' :: 'a' :: 'n' :: rest => some (.scalar, rest)
  | '-' :: rest => signed? '-' rest
  | '+' :: rest => signed? '+' rest
  | '0' :: 'b' :: rest => marked? 'b' 2 rest
  | '0' :: 'o' :: rest => marked? 'o' 8 rest
  | '0' :: 'x' :: rest => marked? 'x' 16 rest
  | char :: rest =>
      if char.isDigit then numberOrInstant? (char :: rest) else boolean? (char :: rest)
  | [] => none

mutual

def value? : Nat → List Char → Option (Expression × List Char)
  | 0, _ => none
  | fuel + 1, text =>
      match skipSpace text with
      | '[' :: rest => do
          let (elements, rest) ← elements? fuel rest
          return (.array elements, rest)
      | '\x7b' :: rest => do
          let (entries, rest) ← entries? fuel rest
          return (.table entries, rest)
      | text => scalar? (fuel + 1) text

def elements? : Nat → List Char → Option (List Expression × List Char)
  | 0, _ => none
  | fuel + 1, text =>
      match skipLines false text with
      | ']' :: rest => some ([], rest)
      | text => do
          let (element, rest) ← value? fuel text
          match skipLines false rest with
          | ',' :: rest =>
              let (elements, rest) ← elements? fuel rest
              return (element :: elements, rest)
          | ']' :: rest => return ([element], rest)
          | _ => none

def entries? : Nat → List Char → Option (List (Key × Expression) × List Char)
  | 0, _ => none
  | fuel + 1, text =>
      match skipLines false text with
      | '\x7d' :: rest => some ([], rest)
      | text => do
          let (key, rest) ← key? (fuel + 1) text
          let rest ← char? '=' rest
          let (value, rest) ← value? fuel rest
          match skipLines false rest with
          | ',' :: rest =>
              let (entries, rest) ← entries? fuel rest
              return ((key, value) :: entries, rest)
          | '\x7d' :: rest => return ([(key, value)], rest)
          | _ => none

end

def statement? (fuel : Nat) : List Char → Option (Statement × List Char)
  | '[' :: '[' :: text => do
      let (key, rest) ← key? fuel text
      let rest ← char? ']' rest
      let rest ← char? ']' rest
      return (.arrayHeading key, rest)
  | '[' :: text => do
      let (key, rest) ← key? fuel text
      let rest ← char? ']' rest
      return (.heading key, rest)
  | text => do
      let (key, rest) ← key? fuel text
      let rest ← char? '=' rest
      let (value, rest) ← value? fuel rest
      return (.assignment key value, rest)

def endsLine (text : List Char) : Bool :=
  match skipSpace text with
  | [] => true
  | char :: _ => char = '#' || isNewline char

def statements? : Nat → List Char → Option (List Statement)
  | 0, _ => none
  | fuel + 1, text =>
      match skipLines false text with
      | [] => some []
      | text => do
          let (statement, rest) ← statement? (fuel + 1) text
          if !endsLine rest then none
          let statements ← statements? fuel rest
          return statement :: statements

def withoutMark : Text.Bytes → Text.Bytes
  | 0xFF :: 0xFE :: rest => rest
  | 0xFE :: 0xFF :: rest => rest
  | 0xEF :: 0xBB :: 0xBF :: rest => rest
  | bytes => bytes

def parse? (bytes : Text.Bytes) : Option (List Statement) :=
  let bytes := withoutMark bytes
  let text := Text.decode bytes
  if Text.wellFormed bytes && isLegible text then statements? (text.length + 2) text else none

end SecdMachine.Toml
