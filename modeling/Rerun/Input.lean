import Rerun.Files
import Rerun.State

/-!
# Inputs

What a run starts from: the state, the messages of both inboxes, and content by its hash.
-/

namespace Rerun

inductive Inbox where
  | sequencer
  | delayed
  deriving DecidableEq

namespace Inbox

def code : Inbox → UInt64
  | .sequencer => 0
  | .delayed => 1

def text : Inbox → String
  | .sequencer => "sequencer"
  | .delayed => "delayed"

def names : List (String × Inbox) := [("sequencer", .sequencer), ("delayed", .delayed)]

def ofJson : Json.Node → Json.Read Inbox := Json.readChoice names

def toJson (i : Inbox) : Json.Value := .string i.text

end Inbox

/-- A message and its place in an inbox. -/
structure Message where
  index : UInt64
  data : Bytes
  deriving DecidableEq, Inhabited

namespace Message

def form : Json.Form Message where
  name := "InboxMessage"
  blank := default
  lenient := false
  fields :=
    [⟨"index", fun x m => return { m with index := ← Json.readNatural "u64" x }⟩,
     ⟨"data", fun x m => return { m with data := ← Bytes.ofJson x }⟩]

def ofJson : Json.Node → Json.Read Message := form.read

def toJson (m : Message) : Json.Value :=
  .object [("index", .number m.index), ("data", m.data.toJson)]

end Message

/-! ## Content by its hash -/

/-- Entries by digest, in ascending order, one for each digest. -/
abbrev ByDigest (α : Type) := List (Digest × α)

namespace ByDigest

variable {α : Type}

/-- Puts an entry in place of the one with its digest, or in its place in the order. -/
def insert (d : Digest) (a : α) : ByDigest α → ByDigest α
  | [] => [(d, a)]
  | (e, b) :: rest =>
    if d = e then (d, a) :: rest
    else if d.le e then (d, a) :: (e, b) :: rest
    else (e, b) :: insert d a rest

/-- The entries of a list, of which a later one replaces an earlier one. -/
def ofList (xs : List (Digest × α)) : ByDigest α := xs.foldl (fun m (d, a) => insert d a m) []

def get? (m : ByDigest α) (d : Digest) : Option α := m.lookup d

theorem get?_insert (m : ByDigest α) (d e : Digest) (a : α) :
    get? (insert d a m) e = if e = d then some a else get? m e := by
  induction m with
  | nil =>
    by_cases h : e = d
    · simp [insert, get?, h]
    · have h' : (e == d) = false := by simpa using h
      simp [insert, get?, List.lookup_cons, h, h']
  | cons x m ih =>
    obtain ⟨f, b⟩ := x
    simp only [insert, get?] at ih ⊢
    by_cases hd : d = f
    · subst hd
      by_cases h : e = d
      · simp [h]
      · have h' : (e == d) = false := by simpa using h
        simp [List.lookup_cons, h, h']
    · rw [if_neg hd]
      by_cases h : e = d
      · subst h
        have h' : (e == f) = false := by simpa using hd
        split
        · simp
        · simp [List.lookup_cons, h', ih]
      · have h' : (e == d) = false := by simpa using h
        split
        · simp [List.lookup_cons, h']
        · cases hf : e == f <;> simp [List.lookup_cons, h, hf, ih]

def readAll {β : Type} (read : α → Json.Read β) : ByDigest α → Json.Read (ByDigest β)
  | [] => .ok []
  | (d, a) :: rest => do
    let b ← read a
    return (d, b) :: (← readAll read rest)

end ByDigest

/-! ## Whole inputs -/

/-- Everything that a run needs besides the machine. -/
structure Input where
  id : UInt64
  startState : GlobalState
  sequencerMessages : List Message
  delayedMessages : List Message
  preimages : ByDigest Bytes
  deriving DecidableEq, Inhabited

namespace Input

/-- The input with a start state and nothing else. -/
def ofState (id : UInt64) (g : GlobalState) : Input :=
  { (default : Input) with id, startState := g }

def addMessage (x : Input) (inbox : Inbox) (m : Message) : Input :=
  match inbox with
  | .sequencer => { x with sequencerMessages := x.sequencerMessages ++ [m] }
  | .delayed => { x with delayedMessages := x.delayedMessages ++ [m] }

/-- Adds content under its own hash. -/
def addContent (x : Input) (content : Bytes) : Digest × Input :=
  let d := Digest.ofContent content
  (d, { x with preimages := x.preimages.insert d content })

/-- Reads content by its hash. Of two entries with one digest the later counts, and only texts that
count have to be hexadecimal. -/
def readPreimages (node : Json.Node) : Json.Read (ByDigest Bytes) := do
  let entries ← Json.readMap Digest.readText (Json.readText "a string") node
  (ByDigest.ofList entries).readAll Bytes.readText

def form : Json.Form Input where
  name := "ValidationInput"
  blank := default
  lenient := true
  fields :=
    [⟨"id", fun x i => return { i with id := ← Json.readNatural "u64" x }⟩,
     ⟨"startState", fun x i => return { i with startState := ← GlobalState.ofJson x }⟩,
     ⟨"sequencerMessages", fun x i =>
       return { i with sequencerMessages := ← Json.readList Message.ofJson x }⟩,
     ⟨"delayedMessages", fun x i =>
       return { i with delayedMessages := ← Json.readList Message.ofJson x }⟩,
     ⟨"preimages", fun x i => return { i with preimages := ← readPreimages x }⟩]

def ofJson : Json.Node → Json.Read Input := form.read

def toJson (x : Input) : Json.Value :=
  .object [("id", .number x.id), ("startState", x.startState.toJson),
    ("sequencerMessages", .array (x.sequencerMessages.map Message.toJson)),
    ("delayedMessages", .array (x.delayedMessages.map Message.toJson)),
    ("preimages", .object (x.preimages.map fun (d, content) => (d.text, content.toJson)))]

def parse (text : String) : Json.Read Input := Json.decode ofJson (Bytes.ofText text)

def load (fs : Files) (path : String) : Except Error Input :=
  match fs.readText path with
  | .error fault => .error (.io fault.message)
  | .ok text =>
    match parse text with
    | .error complaint => .error (.invalidInput s!"{path}: {complaint.message}")
    | .ok x => .ok x

end Input

end Rerun
