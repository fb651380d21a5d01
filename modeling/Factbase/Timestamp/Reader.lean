import Factbase.Timestamp
import Factbase.Number.Numeral

/-! # Reading dates and times

A layout is a list of `Item`s: fields, literal characters and white space. `Timestamp.parse?` reads
a date or a date with time in one of four layouts, tried in order:

1. `2024-03-01T10:30:00.5+02:00`, every field at its full width and the offset required;
2. `2024-03-01T10:30:00` and
3. `2024-03-01 10:30:00`, both in universal time;
4. `2024-03-01`, midnight in universal time.

In the last three a field may be shorter than its width and white space may stand before it.
`Timestamp.decode?` reads the layout of timestamps in stored data: it requires an offset, and
admits white space between the parts. -/

namespace Factbase.Timestamp

/-- The parts of a date and time. -/
inductive Field where
  | year
  | month
  | day
  | hour
  | minute
  | second
deriving DecidableEq, Repr

/-- What was read so far. -/
structure Parts where
  year : Int
  month : Nat
  day : Nat
  hour : Nat
  minute : Nat
  second : Nat
  nano : Nat
deriving DecidableEq, Repr

/-- Nothing read yet. -/
def Parts.empty : Parts := ⟨0, 0, 0, 0, 0, 0, 0⟩

/-- Sets a field. -/
def Parts.set (p : Parts) (f : Field) (value : Int) : Parts :=
  match f with
  | .year => { p with year := value }
  | .month => { p with month := value.toNat }
  | .day => { p with day := value.toNat }
  | .hour => { p with hour := value.toNat }
  | .minute => { p with minute := value.toNat }
  | .second => { p with second := value.toNat }

/-- The instant at which a clock `offset` minutes ahead of universal time shows these parts. -/
def Parts.timestamp? (p : Parts) (offset : Int) : Option Timestamp :=
  ofClock? ⟨p.year, p.month, p.day⟩ p.hour p.minute p.second p.nano offset

/-- Parts of a layout. -/
inductive Item where
  /-- A field at exactly its full width. -/
  | full (field : Field)
  /-- A field at its full width or less, after white space; a year may have a sign. -/
  | upTo (field : Field)
  /-- One of some characters. -/
  | oneOf (characters : List Char)
  /-- White space, which may be missing. -/
  | space
  /-- A point and the digits of a fraction of a second, which may be missing. -/
  | fraction

/-- Full width of a field. -/
def Field.width : Field → Nat
  | .year => 4
  | _ => 2

/-- Reads from `least` to `most` digits. -/
def readDigits? (least most : Nat) (input : List Char) : Option (List Char × List Char) :=
  let digits := (input.take most).takeWhile Text.isDigit
  if digits.length < least then none else some (digits, input.drop digits.length)

/-- The input without leading white space. -/
def skipBlank (input : List Char) : List Char := input.dropWhile Text.isBlank

/-- Nanoseconds of the digits after a decimal point; digits past the ninth are dropped. -/
def nanoOfDigits (digits : List Char) : Nat :=
  let kept := digits.take 9
  Number.digitsValue kept * Nat.pow 10 (9 - kept.length)

/-- Reads one part of a layout. -/
def readItem? (item : Item) (p : Parts) (input : List Char) : Option (Parts × List Char) :=
  match item with
  | .full f =>
    (readDigits? f.width f.width input).map fun (ds, rest) =>
      (p.set f (Number.digitsValue ds), rest)
  | .upTo f =>
    match f, skipBlank input with
    -- after a sign a year has any number of digits
    | .year, '-' :: rest =>
      (readDigits? 1 rest.length rest).map fun (ds, rest) =>
        (p.set f (- (Number.digitsValue ds : Int)), rest)
    | .year, '+' :: rest =>
      (readDigits? 1 rest.length rest).map fun (ds, rest) =>
        (p.set f (Number.digitsValue ds), rest)
    | f, rest =>
      (readDigits? 1 f.width rest).map fun (ds, rest) => (p.set f (Number.digitsValue ds), rest)
  | .oneOf characters =>
    match input with
    | c :: rest => if characters.contains c then some (p, rest) else none
    | [] => none
  | .space => some (p, skipBlank input)
  | .fraction =>
    match input with
    | '.' :: rest =>
      (readDigits? 1 rest.length rest).map fun (ds, rest) =>
        ({ p with nano := nanoOfDigits ds }, rest)
    | _ => some (p, input)

/-- Reads all parts of a layout. -/
def readItems? : List Item → Parts → List Char → Option (Parts × List Char)
  | [], p, input => some (p, input)
  | item :: items, p, input =>
    match readItem? item p input with
    | some (p, rest) => readItems? items p rest
    | none => none

/-- Reads the rest of an offset after its sign, in minutes: two digits of hours, a separator and
two digits of minutes below 60. -/
def readHoursMinutes? (separator : List Char → Option (List Char)) (input : List Char) :
    Option (Int × List Char) :=
  match input with
  | a :: b :: rest =>
    if Text.isDigit a && Text.isDigit b then
      match separator rest with
      | some (c :: d :: rest) =>
        if '0' ≤ c && c ≤ '5' && Text.isDigit d then
          some ((Number.digitsValue [a, b] * 60 + Number.digitsValue [c, d] : Nat), rest)
        else none
      | _ => none
    else none
  | _ => none

/-- The minus sign, which may stand for a hyphen in an offset. -/
def minusSign : Char := Char.ofNat 0x2212

/-- Reads an offset from universal time in minutes: `Z`, or a sign with hours and minutes of less
than a day. -/
def readOffset? (separator : List Char → Option (List Char)) (input : List Char) :
    Option (Int × List Char) :=
  match input with
  | [] => none
  | sign :: rest =>
    if sign == 'Z' || sign == 'z' then some (0, rest)
    else if sign == '+' || sign == '-' || sign == minusSign then
      match readHoursMinutes? separator rest with
      | some (minutes, rest) =>
        if minutes < 1440 then some (if sign == '+' then minutes else -minutes, rest) else none
      | none => none
    else none

/-- A separator that is exactly a colon. -/
def colon? : List Char → Option (List Char)
  | ':' :: rest => some rest
  | _ => none

/-- A separator of colons and white space, which may be missing. -/
def colonOrSpace? (input : List Char) : Option (List Char) :=
  some (input.dropWhile fun c => c == ':' || Text.isBlank c)

/-- The layout with full fields, up to the offset. -/
def fullLayout : List Item :=
  [.full .year, .oneOf ['-'], .full .month, .oneOf ['-'], .full .day, .oneOf ['T', 't', ' '],
    .full .hour, .oneOf [':'], .full .minute, .oneOf [':'], .full .second, .fraction]

/-- A bare date. -/
def dateLayout : List Item :=
  [.upTo .year, .oneOf ['-'], .upTo .month, .oneOf ['-'], .upTo .day]

/-- A bare time. -/
def timeLayout : List Item :=
  [.upTo .hour, .oneOf [':'], .upTo .minute, .oneOf [':'], .upTo .second]

/-- The layout of stored data, up to the offset. -/
def storedLayout : List Item :=
  [.upTo .year, .space, .oneOf ['-'], .upTo .month, .space, .oneOf ['-'], .upTo .day,
    .oneOf ['T', 't', ' '], .upTo .hour, .space, .oneOf [':'], .upTo .minute, .space,
    .oneOf [':'], .upTo .second, .fraction, .space]

/-- Reads a layout in universal time to the end of the input. -/
def readUniversal? (layout : List Item) (input : List Char) : Option Timestamp :=
  match readItems? layout Parts.empty input with
  | some (p, []) => p.timestamp? 0
  | _ => none

/-- Reads a date and time with every field at its full width, and an offset. -/
def readFull? (input : List Char) : Option Timestamp :=
  match readItems? fullLayout Parts.empty input with
  | some (p, rest) =>
    match readOffset? colon? rest with
    | some (offset, []) => p.timestamp? offset
    | _ => none
  | none => none

/-- Reads a date or a date with time; white space around it is dropped. -/
def parse? (text : String) : Option Timestamp :=
  let input := Text.trim text.toList
  if Text.byteLength input < 8 then none
  else
    readFull? input <|>
    readUniversal? (dateLayout ++ .oneOf ['T'] :: timeLayout) input <|>
    readUniversal? (dateLayout ++ .space :: timeLayout) input <|>
    readUniversal? dateLayout input

/-- Reads a timestamp of stored data; the offset may be written `UTC`. -/
def decode? (text : String) : Option Timestamp :=
  match readItems? storedLayout Parts.empty text.toList with
  | some (p, rest) =>
    let offset? :=
      if (rest.take 3).map Char.toUpper == ['U', 'T', 'C'] then some (0, rest.drop 3)
      else readOffset? colonOrSpace? rest
    match offset? with
    | some (offset, rest) => if (skipBlank rest).isEmpty then p.timestamp? offset else none
    | none => none
  | none => none

end Factbase.Timestamp
