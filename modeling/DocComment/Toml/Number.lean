import DocComment.Toml.Value

/-!
# Numbers and moments of TOML

The notation of a number or moment is decided by the whole run of characters that can belong to one.
-/

namespace DocComment.Toml

/-- A character that can belong to a number, a moment or a word. -/
def isScalarChar (c : Char) : Bool :=
  c.isAlphanum || c == '_' || c == '+' || c == '-' || c == '.' || c == ':'

/-- The digits of a run in which single underscores may stand between digits. -/
def ungroup? (isDigit : Char → Bool) : Text → Option Text
  | [] => none
  | [c] => if isDigit c then some [c] else none
  | c :: '_' :: rest => if isDigit c then (ungroup? isDigit rest).map (c :: ·) else none
  | c :: rest => if isDigit c then (ungroup? isDigit rest).map (c :: ·) else none

/-- The value of digits in a base. -/
def digitsValue (base : Nat) (digits : Text) : Nat :=
  digits.foldl (fun acc c =>
    acc * base +
      if c.isDigit then c.toNat - '0'.toNat
      else (c.toNat ||| 0x20) - 'a'.toNat + 10) 0

/-- An integer of 64 bits, if it is one. -/
def word? (n : Int) : Option Int :=
  if -0x8000000000000000 ≤ n && n < 0x8000000000000000 then some n else none

/-- A sign, if there is one, and the text after it. -/
def splitSign : Text → Bool × Text
  | '+' :: t => (false, t)
  | '-' :: t => (true, t)
  | t => (false, t)

/-- The value of a decimal integer without superfluous zeros. -/
def decimal? (t : Text) : Option Int :=
  let (negative, t) := splitSign t
  (ungroup? Char.isDigit t).bind fun digits =>
    if 1 < digits.length && digits.head? == some '0' then none
    else
      let n : Int := digitsValue 10 digits
      some (if negative then -n else n)

/-- The value of an integer in one of the four bases. -/
def integer? (t : Text) : Option Int :=
  let inBase (base : Nat) (isDigit : Char → Bool) (digits : Text) : Option Int :=
    (ungroup? isDigit digits).bind fun digits => word? (digitsValue base digits)
  match t with
  | '0' :: 'x' :: digits =>
    inBase 16 (fun c => c.isDigit || ('a' ≤ c && c ≤ 'f') || ('A' ≤ c && c ≤ 'F')) digits
  | '0' :: 'o' :: digits => inBase 8 (fun c => '0' ≤ c && c ≤ '7') digits
  | '0' :: 'b' :: digits => inBase 2 (fun c => c == '0' || c == '1') digits
  | t => (decimal? t).bind word?

/-- A number with a fraction or an exponent, infinity, or the number that is none. -/
def isFraction (t : Text) : Bool :=
  let unsigned := (splitSign t).2
  let mantissa := t.takeWhile fun c => c != 'e' && c != 'E'
  let exponent := t.drop (mantissa.length + 1)
  let hasExponent := mantissa.length < t.length
  let exponentFits :=
    !hasExponent || (ungroup? Char.isDigit (splitSign exponent).2).isSome
  if unsigned == "inf".toList || unsigned == "nan".toList then true
  else
    match Text.splitFirst? '.' mantissa with
    | some (whole, fraction) =>
      (decimal? whole).isSome && (ungroup? Char.isDigit fraction).isSome && exponentFits
    | none => hasExponent && (decimal? mantissa).isSome && exponentFits

/-- The value of exactly two digits. -/
def twoDigits? (a b : Char) : Option Nat :=
  if a.isDigit && b.isDigit then some (digitsValue 10 [a, b]) else none

/-- The days of a month. -/
def daysIn (year month : Nat) : Nat :=
  if month == 2 then
    if year % 4 == 0 && (year % 100 != 0 || year % 400 == 0) then 29 else 28
  else if [4, 6, 9, 11].contains month then 30
  else 31

/-- A date at the start of a text, and the text after it. -/
def afterDate? : Text → Option Text
  | y₁ :: y₂ :: y₃ :: y₄ :: '-' :: m₁ :: m₂ :: '-' :: d₁ :: d₂ :: rest =>
    match twoDigits? y₁ y₂, twoDigits? y₃ y₄, twoDigits? m₁ m₂, twoDigits? d₁ d₂ with
    | some century, some year, some month, some day =>
      if 1 ≤ month && month ≤ 12 && 1 ≤ day && day ≤ daysIn (century * 100 + year) month then
        some rest
      else none
    | _, _, _, _ => none
  | _ => none

/-- A time of day at the start of a text, and the text after it. -/
def afterTime? : Text → Option Text
  | h₁ :: h₂ :: ':' :: m₁ :: m₂ :: ':' :: s₁ :: s₂ :: rest =>
    match twoDigits? h₁ h₂, twoDigits? m₁ m₂, twoDigits? s₁ s₂ with
    | some hour, some minute, some second =>
      if hour ≤ 23 && minute ≤ 59 && second ≤ 60 then
        match rest with
        | '.' :: d :: tail => if d.isDigit then some (tail.dropWhile Char.isDigit) else none
        | _ => some rest
      else none
    | _, _, _ => none
  | _ => none

/-- Whether a text is a distance from universal time, or empty. -/
def isOffset : Text → Bool
  | [] => true
  | [c] => c == 'Z' || c == 'z'
  | [sign, h₁, h₂, ':', m₁, m₂] =>
    (sign == '+' || sign == '-') && (twoDigits? h₁ h₂).any (· ≤ 23) &&
      (twoDigits? m₁ m₂).any (· ≤ 59)
  | _ => false

/-- Whether a text is a time of day. -/
def isTime (t : Text) : Bool := (afterTime? t).any List.isEmpty

/-- Whether a text is a date, possibly with a time of day on it. -/
def isMoment (t : Text) : Bool :=
  isTime t ||
    match afterDate? t with
    | none => false
    | some [] => true
    | some (c :: rest) =>
      (c == 'T' || c == 't' || c == ' ') && (afterTime? rest).any isOffset

/-- A number, moment or word at the start of a text, and the text after it.  A space may stand
between a date and a time of day. -/
def scalar? (t : Text) : Option (Value × Text) :=
  let run := t.takeWhile isScalarChar
  let rest := t.dropWhile isScalarChar
  let dated : Option (Value × Text) :=
    match (afterDate? run), rest with
    | some [], ' ' :: after =>
      let time := after.takeWhile isScalarChar
      let written := run ++ ' ' :: time
      if isMoment written then some (.moment written, after.dropWhile isScalarChar) else none
    | _, _ => none
  dated.orElse fun _ =>
    if run == "true".toList then some (.boolean true, rest)
    else if run == "false".toList then some (.boolean false, rest)
    else
      match integer? run with
      | some n => some (.integer n, rest)
      | none =>
        if isFraction run then some (.fraction run, rest)
        else if isMoment run then some (.moment run, rest)
        else none

end DocComment.Toml
