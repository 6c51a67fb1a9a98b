import CheckedMemory.Numeral.Integer
import CheckedMemory.Numeral.Real
import CheckedMemory.Session.Report

/-!
# Strings and streams through names

String operations take arrays of bytes of either kind; stream operations also take the name of a
stream.
-/

namespace CheckedMemory

namespace Step

variable (dst : Option String) (name : String)

/-! ## 1. Strings -/

def stringLength : Step Datum := do
  return .natural (← act (CString.length (← string name)))

def compareStrings (other : String) : Step Datum := do
  return .order (← act (CString.compare (← string name) (← string other)))

def compareLeading (other : String) (n : UInt64) : Step Datum := do
  return .order (← act (CString.compareLeading (← string name) (← string other) n))

def copyString (source : String) : Step Datum := do
  act (CString.copy (← string name) (← string source))
  return .nothing

def copyPadded (source : String) (n : UInt64) : Step Datum := do
  act (CString.copyPadded (← string name) (← string source) n)
  return .nothing

def appendString (source : String) : Step Datum := do
  act (CString.appendAll (← string name) (← string source))
  return .nothing

def appendLeading (source : String) (n : UInt64) : Step Datum := do
  act (CString.append (← string name) (← string source) n)
  return .nothing

/-- Keeps a string that was found. -/
def found (p? : Option (AnyArrayPtr .uint8)) : Step Datum :=
  match p? with
  | some p => made dst (.array .uint8 p)
  | none => return .nothing

def findByte (c : UInt8) : Step Datum := do
  found dst (← act (CString.find? (← string name) c))

/-- The number at the front of a string, in one of three forms. -/
def leadingInt32 : Step Datum := do
  return .number (Numeral.leadingInt32 (← act (CString.contents (← string name))).toList).toInt

def leadingInt64 : Step Datum := do
  return .number (Numeral.leadingInt64 (← act (CString.contents (← string name))).toList).toInt

def leadingReal : Step Datum := do
  return .text (Numeral.leadingReal (← act (CString.contents (← string name))).toList).bitText

def newTokenizer : Step Datum := do
  let t ← act (Tokenizer.new (← string name))
  dst.forM (keep · (.tokenizer t))
  return .nothing

def nextToken (delims : String) : Step Datum := do
  match ← handle name with
  | .tokenizer t =>
    let (token, t) ← act (t.next (← string delims))
    keep name (.tokenizer t)
    found dst token
  | _ => misuse

/-! ## 2. Files -/

/-- Gives a file its contents.  Open streams are not told. -/
def putFile (xs : Datum) : Step Datum := do
  match Target.ofPath? name.toUTF8.toList with
  | some (.file file) =>
    let xs ← values .uint8 xs
    modify fun s =>
      { s with
        world := { s.world with directory := s.world.directory.put file (.ofList xs) } }
    return .nothing
  | _ => misuse

/-- The contents of a file, or nothing where there is none. -/
def getFile : Step Datum := do
  match Target.ofPath? name.toUTF8.toList with
  | some (.file file) =>
    return .optional (.bytes ·.toList) ((← get).world.directory.contents? file)
  | _ => return .nothing

/-! ## 3. Streams -/

/-- The stream under a name. -/
def stream (file : String) : Step StreamPtr := do
  match ← handle file with
  | .stream f => return f
  | _ => misuse

def openFile (mode : String) : Step Datum := do
  made dst (.stream (← act (StreamPtr.openFile (← string name) (← string mode))))

/-- Zero for success, and minus one for failure. -/
def status (done : Bool) : Datum := .number (if done then 0 else -1)

/-- Closes a stream; its handle is null afterwards. -/
def close (file : String) : Step Datum := do
  let (done, f) ← act (← stream file).close
  keep file (.stream f)
  return .record [("ret", status done), ("null", .truth f.isNull)]

/-- The next byte, or minus one. -/
def getByte (file : String) : Step Datum := do
  let b ← act (← stream file).getByte
  return (b.map fun b => .natural b.toNat).getD (.number (-1))

/-- Reads plain elements into an array. -/
def readElements (count : UInt64) (file : String) : Step Datum := do
  let ⟨τ, p⟩ ← array name
  demand τ.isPlain
  return .natural (← act ((← stream file).readInto p count))

/-- Writes plain elements of an array. -/
def writeElements (count : UInt64) (file : String) : Step Datum := do
  let ⟨τ, p⟩ ← array name
  demand τ.isPlain
  return .natural (← act ((← stream file).writeFrom p count))

def flush (file : String) : Step Datum := do
  return status (← act (← stream file).flush)

def tell (file : String) : Step Datum := do return .natural (← act (← stream file).tell)

def seek (file : String) (offset : Int64) (origin : Stream.Origin) : Step Datum := do
  return status (← act ((← stream file).seek offset origin))

/-- Reads a line; the array is given back at its position, or nothing without a line. -/
def readLine (room : UInt64) (file : String) : Step Datum := do
  let p ← string name
  if ← act ((← stream file).readLine p room) then found dst (some (ArrayLike.offset p 0))
  else return .nothing

def writeString (file : String) : Step Datum := do
  let p ← string name
  return .truth (← act ((← stream file).writeString p))

def atEnd (file : String) : Step Datum := do return .truth (← act (← stream file).atEnd)

def hasFailed (file : String) : Step Datum := do return .truth (← act (← stream file).failed)

def readWordInto (file : String) : Step Datum := do
  let p ← string name
  return .optional .natural (← act ((← stream file).readWordInto p))

/-- The datum of a word that was read. -/
def wordDatum : WordValue → Datum
  | .integer n => .number n
  | .real x => .text x.bitText
  | .truth b => .truth b
  | .character c => .natural c.toNat
  | .text s => .text s

def readWord (file : String) (form : WordForm) : Step Datum := do
  return .optional wordDatum (← act ((← stream file).readWord form))

/-- Writes a text to a stream; it fails unless the stream takes all bytes. -/
def print (file text : String) : Step Datum := do
  match ← act ((← stream file).print text) with
  | some n => return .natural n
  | none => throw .transfer

/-- Writes a text to standard output, which is shown. -/
def printOut (text : String) : Step Datum :=
  let out := text.toUTF8.toList
  return .record [("ret", .natural out.length), ("out", .bytes out)]

def printInto (size : UInt64) (text : String) : Step Datum := do
  return .natural (← act (CString.print (← string name) size text))

end Step

end CheckedMemory
