import SecdMachine.Text.Characters

/-!
Tokens of the expression language. A text is cut greedily into numbers, words and single
delimiters; blank characters only separate them.
-/

namespace SecdMachine

/-- A numeric token is a digit or `-` followed by digits, a word is a letter followed by letters
and digits, and any other character that is not blank stands alone. -/
inductive Token where
  | numeric (text : List Char)
  | word (text : List Char)
  | delimiter (char : Char)
  deriving DecidableEq, Repr

namespace Token

def chars : Token → List Char
  | numeric text => text
  | word text => text
  | delimiter char => [char]

def literal (token : Token) : String :=
  String.ofList token.chars

def classNames : List String :=
  ["EOF", "NUMERIC", "ALPHA", "DELIMITER"]

def classNameOf (number : Int) : String :=
  let unnamed := "TokenType(" ++ toString number ++ ")"
  if number < 0 then unnamed else classNames.getD number.toNat unnamed

def className : Token → String
  | numeric _ => classNameOf 1
  | word _ => classNameOf 2
  | delimiter _ => classNameOf 3

def continuesWord (char : Char) : Bool :=
  Text.isLetter char || Text.isDigit char

def startsNumber (char : Char) : Bool :=
  Text.isDigit char || char = '-'

end Token

def tokensAfter : Nat → List Char → List Token
  | _, [] => []
  | skip + 1, _ :: rest => tokensAfter skip rest
  | 0, char :: rest =>
      if Text.isBlank char then tokensAfter 0 rest
      else if Token.startsNumber char then
        let digits := rest.takeWhile Text.isDigit
        .numeric (char :: digits) :: tokensAfter digits.length rest
      else if Text.isLetter char then
        let more := rest.takeWhile Token.continuesWord
        .word (char :: more) :: tokensAfter more.length rest
      else .delimiter char :: tokensAfter 0 rest

def tokens (text : List Char) : List Token :=
  tokensAfter 0 text

theorem tokensAfter_eq_tokens_drop (skip : Nat) (text : List Char) :
    tokensAfter skip text = tokens (text.drop skip) := by
  induction text generalizing skip with
  | nil => cases skip <;> simp [tokens, tokensAfter]
  | cons char rest ih =>
      cases skip with
      | zero => simp [tokens]
      | succ skip => simpa [tokensAfter] using ih skip

end SecdMachine
