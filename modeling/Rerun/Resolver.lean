import Rerun.Error

/-!
# Resolvers

A machine asks for the content behind a hash through a number, its token. The registry keeps the
resolver of every token. Tokens start at one and are never used twice; zero is the token of a
machine without a resolver.

A token can be owned by several machines at once, which then form a family; when the last owner lets
go of it, its entry is removed.

The tokens are drawn from a counter of 64 bits, which is kept as a number here. The two agree as
long as the next token fits into a word as well (`Registry.HasRoom`); nobody gets to the end of the
words by registering one resolver after the other. What the counter does there is told in
`Rerun.Proofs.Registry.Words`.
-/

namespace Rerun

inductive Answer where
  | found (content : Bytes)
  | refused (reason : String)
  | panicked (message : String)
  deriving DecidableEq

/-- A function from a hash to its content. -/
abbrev Resolver := Digest → Answer

namespace Resolver

/-- Answers every hash with one content. -/
def always (content : Bytes) : Resolver := fun _ => .found content

/-- Looks hashes up, and refuses with `reason` those that are not there. -/
def ofContents (contents : List (Digest × Bytes)) (reason : String) : Resolver := fun hash =>
  match contents.lookup hash with
  | some content => .found content
  | none => .refused reason

end Resolver

/-- The resolver of a token, and how many owners the token has. -/
structure Registration where
  resolver : Resolver
  owners : Nat

/-- The resolvers of all tokens. -/
structure Registry where
  /-- The token that was given out last. -/
  lastToken : Nat
  entries : List (Nat × Registration)
  /-- Only tokens that were given out have entries. -/
  le_lastToken : ∀ e ∈ entries, e.1 ≤ lastToken

namespace Registry

def empty : Registry := ⟨0, [], by simp⟩

def entry? (r : Registry) (token : Nat) : Option Registration := r.entries.lookup token

def contains (r : Registry) (token : Nat) : Bool := (r.entry? token).isSome

def size (r : Registry) : Nat := r.entries.length

/-- Registers a resolver under a fresh token, with one owner. -/
def register (r : Registry) (resolver : Resolver) : Nat × Registry :=
  let token := r.lastToken + 1
  (token, {
    lastToken := token
    entries := r.entries ++ [(token, ⟨resolver, 1⟩)]
    le_lastToken := by
      intro e he
      rcases List.mem_append.1 he with he | he
      · have := r.le_lastToken e he
        omega
      · obtain rfl := List.mem_singleton.1 he
        exact Nat.le_refl _ })

/-- Whether the next token still is a word of 64 bits. -/
def HasRoom (r : Registry) : Prop := r.lastToken + 1 < UInt64.size

def unregister (r : Registry) (token : Nat) : Registry where
  lastToken := r.lastToken
  entries := r.entries.filter fun (t, _) => t ≠ token
  le_lastToken e he := r.le_lastToken e (List.mem_filter.1 he).1

def setOwners (r : Registry) (token owners : Nat) : Registry where
  lastToken := r.lastToken
  entries := r.entries.map fun (t, e) => if t = token then (t, { e with owners }) else (t, e)
  le_lastToken := by
    intro e he
    obtain ⟨⟨t, e⟩, ha, rfl⟩ := List.mem_map.1 he
    have ht := r.le_lastToken _ ha
    dsimp only
    split <;> exact ht

/-- A token gets one more owner. -/
def retain (r : Registry) (token : Nat) : Registry :=
  match r.entry? token with
  | some e => r.setOwners token (e.owners + 1)
  | none => r

/-- An owner lets go of a token; the last one takes its entry along. -/
def release (r : Registry) (token : Nat) : Registry :=
  match r.entry? token with
  | some e => if e.owners ≤ 1 then r.unregister token else r.setOwners token (e.owners - 1)
  | none => r

/-- The content behind a hash, from the resolver of a token. -/
def resolve (r : Registry) (token : Nat) (hash : Digest) : Result Bytes :=
  match r.entry? token with
  | none => fail (.preimageFailed hash token "unknown resolver token")
  | some e =>
    match e.resolver hash with
    | .found content => .ok content
    | .refused reason => fail (.preimageFailed hash token reason)
    | .panicked message => .error (.panic (.text message))

/-- A line that tells of an owner of a token. -/
def describe (token : Nat) : String := s!"ResolverRegistration \x7b token: {token} \x7d"

end Registry

/-! ## Owners by number -/

/-- A registry, and owners of its tokens that go by numbers. -/
structure Owners where
  registry : Registry := .empty
  tokens : List (Nat × Nat) := []

namespace Owners

/-- The owner with a number lets go of its token. Tells whether there was one. -/
def drop (o : Owners) (n : Nat) : Bool × Owners :=
  match o.tokens.lookup n with
  | none => (false, o)
  | some token =>
    (true, ⟨o.registry.release token, o.tokens.filter fun (m, _) => m ≠ n⟩)

/-- Gives a number to an owner of a token, in place of the owner that had it. -/
def put (o : Owners) (n token : Nat) : Owners :=
  let o := (o.drop n).2
  { o with tokens := o.tokens ++ [(n, token)] }

/-- Registers a resolver, whose token goes to the owner with a number. -/
def register (o : Owners) (n : Nat) (resolver : Resolver) : Nat × Owners :=
  let (token, registry) := o.registry.register resolver
  (token, { o with registry }.put n token)

def share (o : Owners) (n other : Nat) : Owners :=
  match o.tokens.lookup n with
  | none => o
  | some token => { o with registry := o.registry.retain token }.put other token

end Owners

end Rerun
