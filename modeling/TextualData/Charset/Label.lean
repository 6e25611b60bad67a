import TextualData.Text.Blank

/-!
# Character encodings and their labels

The encodings that text can be read in, each with its canonical name and the labels it goes by.
Labels are compared without regard to ASCII letter case and to the blanks around them.
-/

namespace TextualData

/-- A character encoding. -/
inductive Charset where
  | utf8
  | utf16le
  | utf16be
  /-- The Western encoding of one byte, a superset of ISO-8859-1. -/
  | windows1252
  /-- The Central European encoding of one byte. -/
  | latin2
  /-- The Western encoding of one byte with the euro sign. -/
  | latin9
  /-- ASCII, with the upper half of the bytes in the private use area. -/
  | userDefined
deriving DecidableEq, Repr

namespace Charset

/-- The canonical name of an encoding. -/
def name : Charset → String
  | utf8 => "UTF-8"
  | utf16le => "UTF-16LE"
  | utf16be => "UTF-16BE"
  | windows1252 => "windows-1252"
  | latin2 => "ISO-8859-2"
  | latin9 => "ISO-8859-15"
  | userDefined => "x-user-defined"

/-- The labels of an encoding, in lower case. -/
def labels : Charset → List String
  | utf8 =>
    ["unicode-1-1-utf-8", "unicode11utf8", "unicode20utf8", "utf-8", "utf8", "x-unicode20utf8"]
  | utf16le =>
    ["csunicode", "iso-10646-ucs-2", "ucs-2", "unicode", "unicodefeff", "utf-16", "utf-16le"]
  | utf16be => ["unicodefffe", "utf-16be"]
  | windows1252 =>
    ["ansi_x3.4-1968", "ascii", "cp1252", "cp819", "csisolatin1", "ibm819", "iso-8859-1",
     "iso-ir-100", "iso8859-1", "iso88591", "iso_8859-1", "iso_8859-1:1987", "l1", "latin1",
     "us-ascii", "windows-1252", "x-cp1252"]
  | latin2 =>
    ["csisolatin2", "iso-8859-2", "iso-ir-101", "iso8859-2", "iso88592", "iso_8859-2",
     "iso_8859-2:1987", "l2", "latin2"]
  | latin9 => ["csisolatin9", "iso-8859-15", "iso8859-15", "iso885915", "iso_8859-15", "l9"]
  | userDefined => ["x-user-defined"]

/-- All encodings. -/
def all : List Charset :=
  [utf8, utf16le, utf16be, windows1252, latin2, latin9, userDefined]

/-- The characters that may surround a label, beyond white space. -/
def isLabelPadding (c : Char) : Bool :=
  c == '\t' || c == '\n' || c == '\x0c' || c == '\r' || c == ' '

/-- The label in the form in which labels are compared. -/
def normalizeLabel (label : String) : String :=
  String.ofList <|
    (Text.trim isLabelPadding (Text.trim Text.isWhiteSpace label.toList)).map Char.toLower

/-- The encoding with the given label, if there is one. -/
def ofLabel? (label : String) : Option Charset :=
  all.find? fun c => c.labels.contains (normalizeLabel label)

end Charset
end TextualData
