import FullText.Text.Quoted
import FullText.Text.Utf8

/-!
# Faults

Everything that can go wrong, by cause, and the message of each cause.
-/

namespace FullText

/-- The kinds of node that an expression tree is built of. -/
inductive NodeKind where
  | term
  | join
  deriving DecidableEq, Repr

/-- The name of a kind of node in messages. -/
def NodeKind.name : NodeKind → String
  | term => "Terminal"
  | join => "Internal"

inductive Fault where
  /-- No conjunction has the name shown. -/
  | unknownConjunction (shown : String)
  /-- No term form has the name shown. -/
  | unknownForm (shown : String)
  | unknownFormat (name : String)
  /-- A flag that follows from the other fields was given a value of its own. -/
  | derivedField (name : String)
  /-- A field of a finished node was assigned. -/
  | frozenField (name : String)
  /-- Fields were to be replaced in something without fields. -/
  | notReplaceable
  | unexpectedField (node : String) (name : String)
  | missingFields (node : String) (names : List String)
  /-- A field was read of something that has none of that name. -/
  | noAttribute (kind name : String)
  /-- Something that is no expression was to be written as one. -/
  | notAnExpression (shown : String)
  /-- A character was read before the start of a text. -/
  | outOfRange
  /-- An index has more than 64 bits. -/
  | indexTooWide
  /-- A word was to be removed that was not there. -/
  | absentWord (shown : String)
  /-- A word was to be taken from an empty set. -/
  | noWords
  | notIterable (kind : String)
  | unhashable (kind : String)
  /-- Two things were compared by an order that they do not share. -/
  | unordered (symbol left right : String)
  | unsupportedOperands (symbol left right : String)
  | noSuchFile (path : String)
  | isDirectory (path : String)
  | notDirectory (path : String)
  /-- A path, or one of its components, has too many bytes. -/
  | nameTooLong (path : String)
  | nulInPath
  | undecodable (refusal : Text.Utf8Refusal)
  deriving DecidableEq, Repr

namespace Fault

/-- Whether the fault comes from looking up a path, not from what a file holds. A path with a NUL in
it is not looked up. -/
def isPathFault : Fault → Bool
  | noSuchFile _ | isDirectory _ | notDirectory _ | nameTooLong _ => true
  | _ => false

def byteText (b : UInt8) : String := "0x" ++ String.ofList (Text.hexDigits 2 b.toNat)

/-- Refused bytes are named by value when there is one, and by their range when there are more. -/
def refusalMessage (r : Text.Utf8Refusal) : String :=
  let span :=
    match r.bytes with
    | [b] => "byte " ++ byteText b ++ " in position " ++ toString r.offset
    | bytes =>
      "bytes in position " ++ toString r.offset ++ "-" ++ toString (r.offset + bytes.length - 1)
  "'utf-8' codec can't decode " ++ span ++ ": " ++ r.reason.text

def missingMessage (node : String) (names : List String) : String :=
  let count := names.length
  let plural := if count = 1 then "" else "s"
  node ++ ".__init__() missing " ++ toString count ++ " required positional argument" ++ plural ++
    ": " ++ " and ".intercalate (names.map fun n => "'" ++ n ++ "'")

def message : Fault → String
  | unknownConjunction shown => shown ++ " is not a valid Conjunction"
  | unknownForm shown => shown ++ " is not a valid TermForm"
  | unknownFormat name => "Unknown format: " ++ name ++ ". Available: ['text', 'json']"
  | derivedField name =>
    "field " ++ name ++ " is declared with init=False, it cannot be specified with replace()"
  | frozenField name => "cannot assign to field " ++ Text.quoted name
  | notReplaceable => "replace() should be called on dataclass instances"
  | unexpectedField node name =>
    node ++ ".__init__() got an unexpected keyword argument '" ++ name ++ "'"
  | missingFields node names => missingMessage node names
  | noAttribute kind name => "'" ++ kind ++ "' object has no attribute '" ++ name ++ "'"
  | notAnExpression shown => "Unsupported query node: " ++ shown
  | outOfRange => "string index out of range"
  | indexTooWide => "cannot fit 'int' into an index-sized integer"
  | absentWord shown => shown
  | noWords => ""
  | notIterable kind => "'" ++ kind ++ "' object is not iterable"
  | unhashable kind => "unhashable type: '" ++ kind ++ "'"
  | unordered symbol left right =>
    "'" ++ symbol ++ "' not supported between instances of '" ++ left ++ "' and '" ++ right ++ "'"
  | unsupportedOperands symbol left right =>
    "unsupported operand type(s) for " ++ symbol ++ ": '" ++ left ++ "' and '" ++ right ++ "'"
  | noSuchFile path => "[Errno 2] No such file or directory: " ++ Text.quoted path
  | isDirectory path => "[Errno 21] Is a directory: " ++ Text.quoted path
  | notDirectory path => "[Errno 20] Not a directory: " ++ Text.quoted path
  | nameTooLong path => "[Errno 36] File name too long: " ++ Text.quoted path
  | nulInPath => "embedded null byte"
  | undecodable refusal => refusalMessage refusal

end Fault

end FullText
