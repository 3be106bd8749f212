import Rerun.Json.Token

/-!
# JSON trees

A document becomes a tree even if it is malformed: the tree then goes as far as the document makes
sense, and every container that was open at that point is marked as cut off. So a reader of the tree
meets what is wrong in the order of the document.
-/

namespace Rerun.Json

/-- How a container ends. -/
inductive Ending where
  | closed
  /-- Cut off by what makes no sense, or by the end of the document. -/
  | cut

/-- A value in a document. -/
inductive Node where
  /-- No value stands where one has to. -/
  | fault
  | null
  | bool (b : Bool)
  | number (n : Number)
  | string (pieces : List Piece)
  | array (items : List Node) (ending : Ending)
  | object (members : List (List Piece × Node)) (ending : Ending)

instance : Inhabited Node := ⟨.fault⟩

/-- A container that is still open. What it holds stands in it with the last first. -/
inductive Frame where
  | array (items : List Node)
  | object (members : List (List Piece × Node))
  | member (members : List (List Piece × Node)) (key : List Piece)

/-- What may come next. -/
inductive Expect where
  | value
  /-- A value, or the end of an array that is empty. -/
  | item
  /-- A comma or the end of the innermost container. -/
  | next
  /-- A key, or the end of an object that is empty. -/
  | firstKey
  | key
  | colon

/-- A document being read: the open containers, the innermost first, and what may come next; or the
finished value. -/
inductive Progress where
  | reading (frames : List Frame) (expect : Expect)
  | finished (root : Node)

/-- A value is complete: it goes into the innermost container, or it is the root. -/
def Progress.close (frames : List Frame) (node : Node) : Progress :=
  match frames with
  | [] => .finished node
  | .array items :: frames => .reading (.array (node :: items) :: frames) .next
  | .member members key :: frames => .reading (.object ((key, node) :: members) :: frames) .next
  | .object members :: frames => .reading (.object members :: frames) .next

/-- The end of a value that was cut off: all open containers are cut off with it. -/
def cutAll : List Frame → Node → Node
  | [], node => node
  | .array items :: frames, node => cutAll frames (.array (node :: items).reverse .cut)
  | .member members key :: frames, node =>
    cutAll frames (.object ((key, node) :: members).reverse .cut)
  | .object members :: frames, _ => cutAll frames (.object members.reverse .cut)

/-- The root of a document that makes no sense from here on. -/
def cutOff (frames : List Frame) (expect : Expect) : Node :=
  match expect, frames with
  | .value, frames => cutAll frames .fault
  | .colon, frames => cutAll frames .fault
  | _, .array items :: frames => cutAll frames (.array items.reverse .cut)
  | _, .object members :: frames => cutAll frames (.object members.reverse .cut)
  | _, frames => cutAll frames .fault

/-- What a token does to a document being read; `none` if it does not fit. -/
def Progress.push? (frames : List Frame) (expect : Expect) (t : Token) : Option Progress :=
  let value : Option Progress :=
    match t with
    | .openArray => some (.reading (.array [] :: frames) .item)
    | .openObject => some (.reading (.object [] :: frames) .firstKey)
    | .null => some (.close frames .null)
    | .bool b => some (.close frames (.bool b))
    | .number n => some (.close frames (.number n))
    | .string ps => some (.close frames (.string ps))
    | _ => none
  match expect, t, frames with
  | .item, .closeArray, .array items :: outer => some (.close outer (.array items.reverse .closed))
  | .item, _, _ => value
  | .value, _, _ => value
  | .next, .comma, .array items :: outer => some (.reading (.array items :: outer) .value)
  | .next, .comma, .object members :: outer => some (.reading (.object members :: outer) .key)
  | .next, .closeArray, .array items :: outer => some (.close outer (.array items.reverse .closed))
  | .next, .closeObject, .object members :: outer =>
    some (.close outer (.object members.reverse .closed))
  | .firstKey, .closeObject, .object members :: outer =>
    some (.close outer (.object members.reverse .closed))
  | .firstKey, .string key, .object members :: outer =>
    some (.reading (.member members key :: outer) .colon)
  | .key, .string key, .object members :: outer =>
    some (.reading (.member members key :: outer) .colon)
  | .colon, .colon, frames => some (.reading frames .value)
  | _, _, _ => none

/-- A document: its value, and whether anything but space follows it. -/
structure Document where
  root : Node
  trailing : Bool

/-- Reads the rest of a document. -/
def Document.resume (frames : List Frame) (expect : Expect) : List Token → Document
  | [] => ⟨cutOff frames expect, false⟩
  | t :: ts =>
    match Progress.push? frames expect t with
    | none => ⟨cutOff frames expect, true⟩
    | some (.finished root) => ⟨root, !ts.isEmpty⟩
    | some (.reading frames expect) => Document.resume frames expect ts

def Document.ofTokens (ts : List Token) : Document := Document.resume [] .value ts

def Document.read (bs : Bytes) : Document := Document.ofTokens (Token.scan bs)

end Rerun.Json
