import Rerun.Files

/-!
# Headers of libraries

A library is a file that begins with a header, which tells what machines it was made for and where
its segments are listed. What is wrong with a file is the first thing that does not hold of it.
-/

namespace Rerun.Library

/-- What is wrong with a file that is no library for this engine. -/
inductive Flaw where
  | short
  | magic
  | wordSize
  | byteOrder
  | identVersion
  | system
  | systemVersion
  | padding
  | version
  | processor
  | kind
  | entrySize
  | unreachable
  | unlisted
  /-- A segment is to be loaded elsewhere in a page than it stands in the file. -/
  | misplaced
  | noSegments
  | program
  | notDynamic
  deriving DecidableEq

/-- How a flaw is told. A library for another processor counts as none. -/
def Flaw.reason : Flaw → String
  | .short => "file too short"
  | .magic => "invalid ELF header"
  | .wordSize => "wrong ELF class: ELFCLASS32"
  | .byteOrder => "ELF file data encoding not little-endian"
  | .identVersion => "ELF file version ident does not match current one"
  | .system => "ELF file OS ABI invalid"
  | .systemVersion => "ELF file ABI version invalid"
  | .padding => "nonzero padding in e_ident"
  | .version => "ELF file version does not match current one"
  | .processor => s!"cannot open shared object file: {FileFault.notFound.reason}"
  | .kind => "only ET_DYN and ET_EXEC can be loaded"
  | .entrySize => "ELF file\x27s phentsize not the expected size"
  | .unreachable => "cannot read file data: Invalid argument"
  | .unlisted => "cannot read file data"
  | .misplaced => "ELF load command address/offset not page-aligned"
  | .noSegments => "object file has no loadable segments"
  | .program => "cannot dynamically load executable"
  | .notDynamic => "object file has no dynamic section"

/-! ## Numbers in a header -/

/-- A number, the least significant byte first. -/
def number : Bytes → Nat
  | [] => 0
  | b :: bs => b.toNat + 256 * number bs

def slice (content : Bytes) (offset length : Nat) : Bytes := (content.drop offset).take length

def numberAt (content : Bytes) (offset length : Nat) : Nat := number (slice content offset length)

def headerLength : Nat := 64

def entryLength : Nat := 56

def magic : Bytes := 0x7F :: Bytes.ofText "ELF"

/-- The numbers of the systems whose libraries can be opened, and how many versions of each are
known. -/
def systems : List (Nat × Nat) := [(0, 1), (3, 4)]

def processor : Nat := 0x3E

def programKind : Nat := 2

def libraryKind : Nat := 3

def loadedSegment : Nat := 1

def dynamicSegment : Nat := 2

def pageLength : Nat := 4096

/-- The place behind which no file goes on. -/
def farthest : Nat := 9223372036854775808

/-- How many places a number of eight bytes tells apart: counting on from the last one leads to the
first. -/
def placeCount : Nat := 18446744073709551616

/-- How much of a file is held from the first look at it. -/
def heldLength : Nat := 832

/-! ## Segments -/

/-- A segment of a library: of what kind it is, where it stands in the file, at what address it is
to be, and its length in the file. -/
structure Segment where
  kind : Nat
  offset : Nat
  address : Nat
  length : Nat

/-- The segment that an entry of the list at some place tells of. -/
def segmentAt (content : Bytes) (place : Nat) : Segment :=
  ⟨numberAt content place 4, numberAt content (place + 8) 8, numberAt content (place + 16) 8,
    numberAt content (place + 32) 8⟩

def Segment.isLoaded (s : Segment) : Bool := s.kind = loadedSegment

/-- Whether it is at the same place in its page in the file and when it is loaded. -/
def Segment.isAligned (s : Segment) : Bool := s.address % pageLength = s.offset % pageLength

def Segment.isDynamic (s : Segment) : Bool := s.kind = dynamicSegment && s.length ≠ 0

/-- Whether some segments tell what a library needs: the last one that does counts, and one at the
address zero counts as none. -/
def isDynamic (segments : List Segment) : Bool :=
  (segments.reverse.find? (·.isDynamic)).any (·.address ≠ 0)

/-! ## Checks -/

/-- What has to hold of the bytes that tell what a library was made for, in the order in which it is
looked at. -/
def identChecks (content : Bytes) : List (Flaw × Bool) :=
  let known := systems.lookup (numberAt content 7 1)
  [(.byteOrder, numberAt content 5 1 = 1),
   (.identVersion, numberAt content 6 1 = 1),
   (.system, known.isSome),
   (.systemVersion, known.any (numberAt content 8 1 < ·)),
   (.padding, (slice content 9 7).all (· = 0))]

/-- What has to hold of the list of segments and of what it lists. The list may lie within what is
held of the file, where its end counts on from the last place to the first; otherwise it is read. -/
def segmentChecks (content : Bytes) : List (Flaw × Bool) :=
  let list := numberAt content 32 8
  let count := numberAt content 56 2
  let listEnd := list + entryLength * count
  let isHeld := listEnd % placeCount ≤ min content.length heldLength
  let segments := (List.range count).map fun n =>
    segmentAt content ((list + entryLength * n) % placeCount)
  [(.entrySize, numberAt content 54 2 = entryLength),
   (.unreachable, isHeld || listEnd < farthest),
   (.unlisted, isHeld || count = 0 || listEnd ≤ content.length),
   (.misplaced, segments.all fun s => !s.isLoaded || s.isAligned),
   (.noSegments, segments.any (·.isLoaded)),
   (.program, numberAt content 16 2 = libraryKind),
   (.notDynamic, isDynamic segments)]

def isForProcessor (content : Bytes) : Bool := numberAt content 18 2 = processor

/-- What has to hold for a file to be looked at as a library at all. One for another processor is
not, if something else that it was made for is wrong too. -/
def formatChecks (content : Bytes) : List (Flaw × Bool) :=
  [(.short, headerLength ≤ content.length),
   (.magic, content.take magic.length = magic),
   (.wordSize, numberAt content 4 1 = 2),
   (.processor, isForProcessor content || (identChecks content).all (·.2))]

def kindChecks (content : Bytes) : List (Flaw × Bool) :=
  let kind := numberAt content 16 2
  [(.version, numberAt content 20 4 = 1),
   (.processor, isForProcessor content),
   (.kind, kind = programKind || kind = libraryKind)]

/-- What has to hold of a library, in the order in which it is looked at, by the flaw that a file
has otherwise. -/
def checks (content : Bytes) : List (Flaw × Bool) :=
  formatChecks content ++ identChecks content ++ kindChecks content ++ segmentChecks content

/-- What is wrong with the content of a file, if anything is. -/
def flaw? (content : Bytes) : Option Flaw := ((checks content).find? (!·.2)).map (·.1)

end Rerun.Library
