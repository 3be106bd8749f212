import Rerun.Site

/-!
# The history of a depot

Everything that happens to the machines of a site, one event at a time and in any order. Whoever
asks for the pair of a module root may start a build, which begins later, and goes on for a while
whenever it gets the time, until it ends. Some builds are given up before they begin, and the depot
may be closed at any time.
-/

namespace Rerun.Site

/-- What can happen to the machines of a site. -/
inductive Event where
  | ask (root : Digest)
  | start (n : Nat)
  | goOn (pause : Option Nat) (n : Nat)
  /-- A build is given up before it begins. -/
  | drop (n : Nat)
  | close

/-- The module root of a build that was asked for and has not begun. -/
def waiting? (s : Site) (n : Nat) : Option Digest :=
  match s.depot.cache.builds[n]?, s.depot.walks.lookup n with
  | some ⟨root, .inFlight⟩, none => some root
  | _, _ => none

def step (s : Site) : Event → Site
  | .ask root => { s with depot := { s.depot with cache := (s.depot.cache.request root).2 } }
  | .start n =>
    match s.waiting? n with
    | some root => s.startBuild n root
    | none => s
  | .goOn pause n => (s.goOn pause n).2
  | .drop n =>
    match s.waiting? n with
    | some _ => { s with depot := { s.depot with cache := s.depot.cache.drop n } }
    | none => s
  | .close => s.closeDepot

def run (s : Site) (events : List Event) : Site := events.foldl step s

end Rerun.Site
