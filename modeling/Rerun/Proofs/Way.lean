import Rerun.Proofs.Directory

/-!
# Ways of paths

A path passes through certain places, whatever stands there. Two trees of files that agree on those
give the same answers to whoever uses the path (`Agree.read_eq`, `Agree.write`), and a file that is
written elsewhere makes no difference (`Agree.write_elsewhere`).
-/

namespace Rerun

/-! ## Places -/

namespace Path

/-- The places that names lead through, from one place to the last. -/
def places (at_ : List String) : List String → List (List String)
  | [] => [at_]
  | name :: rest =>
    at_ :: if name = ".." then places at_.dropLast rest else places (at_ ++ [name]) rest

/-- The place that names lead to. -/
def destination (at_ : List String) : List String → List String
  | [] => at_
  | name :: rest =>
    if name = ".." then destination at_.dropLast rest else destination (at_ ++ [name]) rest

/-- The place where a path starts. -/
def origin (current : List String) (path : String) : List String :=
  if isAbsolute path then [] else current

/-- The places on the way of a path. -/
def way (current : List String) (path : String) : List (List String) :=
  places (origin current path) (names path)

/-- The place that a path means. -/
def target (current : List String) (path : String) : List String :=
  destination (origin current path) (names path)

theorem destination_mem_places (at_ xs : List String) : destination at_ xs ∈ places at_ xs := by
  induction xs generalizing at_ with
  | nil => exact List.mem_singleton_self at_
  | cons name xs ih =>
    rw [destination, places]
    refine List.mem_cons_of_mem _ ?_
    split
    · exact ih _
    · exact ih _

/-- Whoever goes on passes through what is on the way. -/
theorem places_prefix {at_ xs ns : List String} (ys : List String) (h : ns ∈ places at_ xs) :
    ns ∈ places at_ (xs ++ ys) := by
  induction xs generalizing at_ with
  | nil =>
    obtain rfl := List.mem_singleton.1 h
    cases ys with
    | nil => exact List.mem_singleton_self ns
    | cons y ys => exact List.mem_cons_self
  | cons name xs ih =>
    rw [List.cons_append, places]
    rw [places] at h
    rcases List.mem_cons.1 h with rfl | h
    · exact List.mem_cons_self
    · refine List.mem_cons_of_mem _ ?_
      split
      · rename_i hup
        rw [if_pos hup] at h
        exact ih h
      · rename_i hup
        rw [if_neg hup] at h
        exact ih h

theorem destination_concat {name : String} (hup : name ≠ "..") (at_ xs : List String) :
    destination at_ (xs ++ [name]) = destination at_ xs ++ [name] := by
  induction xs generalizing at_ with
  | nil =>
    show (if name = ".." then _ else _) = _
    rw [if_neg hup]
    rfl
  | cons x xs ih =>
    rw [List.cons_append, destination, destination]
    split
    · exact ih _
    · exact ih _

/-- The way to the directory of a path is the beginning of its way. -/
theorem names_eq_append (path : String) :
    ∃ rest, names path = (parts path).dropLast.filter (· ≠ ".") ++ rest := by
  unfold names
  cases hp : (parts path).getLast? with
  | none =>
    rw [List.getLast?_eq_none_iff.1 hp]
    exact ⟨[], rfl⟩
  | some last =>
    obtain ⟨init, hinit⟩ := List.getLast?_eq_some_iff.1 hp
    rw [hinit, List.dropLast_concat, List.filter_append]
    exact ⟨_, rfl⟩

end Path

/-! ## Trees that agree -/

namespace Files

open Rerun.Path (places destination origin way target)

/-- Two trees of files have the same entries at some places. -/
structure Agree (at_ : List String → Prop) (fs gs : Files) : Prop where
  current : gs.current = fs.current
  entry : ∀ ns, at_ ns → gs.entry? ns = fs.entry? ns

variable {at_ : List String → Prop} {fs gs fs' : Files} {path : String} {content : Bytes}

theorem Agree.refl (at_ : List String → Prop) (fs : Files) : Agree at_ fs fs :=
  ⟨rfl, fun _ _ => rfl⟩

theorem follow_congr {start xs : List String}
    (h : ∀ ns ∈ places start xs, gs.entry? ns = fs.entry? ns) :
    gs.follow start xs = fs.follow start xs := by
  induction xs generalizing start with
  | nil => rfl
  | cons name xs ih =>
    rw [places] at h
    have hhere := h start List.mem_cons_self
    rw [follow, follow, hhere]
    split
    · rfl
    · rfl
    · split
      · rfl
      · split
        · rename_i hup
          rw [if_pos hup] at h
          exact ih fun ns hns => h ns (List.mem_cons_of_mem _ hns)
        · rename_i hup
          rw [if_neg hup] at h
          exact ih fun ns hns => h ns (List.mem_cons_of_mem _ hns)

theorem follow_eq_ok {start found xs : List String} (h : fs.follow start xs = .ok found) :
    found = destination start xs := by
  induction xs generalizing start with
  | nil => exact (Except.ok.inj h).symm
  | cons name xs ih =>
    rw [follow] at h
    rw [destination]
    split at h
    · cases h
    · cases h
    · split at h
      · cases h
      · split at h
        · rename_i hup
          rw [if_pos hup]
          exact ih h
        · rename_i hup
          rw [if_neg hup]
          exact ih h

theorem Agree.start_eq (h : Agree at_ fs gs) (path : String) : gs.start path = fs.start path := by
  unfold Files.start
  rw [h.current]

theorem Agree.find_eq (h : Agree at_ fs gs) (hway : ∀ ns ∈ way fs.current path, at_ ns) :
    gs.find path = fs.find path := by
  have hplaces : ∀ start, fs.start path = .ok start →
      ∀ ns ∈ places start (Path.names path), gs.entry? ns = fs.entry? ns := by
    intro start hs ns hns
    rw [start_eq_ok hs] at hns
    exact h.entry ns (hway ns hns)
  refine find_congr (h.start_eq path) (fun start hs => follow_congr (hplaces start hs)) ?_
  intro start found hs hf
  refine hplaces start hs found ?_
  rw [follow_eq_ok hf]
  exact Path.destination_mem_places _ _

/-- Who reads sees only what is on the way. -/
theorem Agree.read_eq (h : Agree at_ fs gs) (hway : ∀ ns ∈ way fs.current path, at_ ns) :
    gs.read path = fs.read path := by
  unfold read
  rw [h.find_eq hway]

theorem Agree.put (h : Agree at_ fs gs) {names : List String} (hn : names ≠ []) (e : Entry) :
    Agree at_ (fs.put names e) (gs.put names e) where
  current := by
    have hput : ∀ fs : Files, (fs.put names e).current = fs.current := by
      intro fs
      unfold Files.put
      split <;> rfl
    rw [hput, hput, h.current]
  entry ns hns := by
    rw [entry?_put gs hn, entry?_put fs hn, h.entry ns hns]

/-- Who writes in one of two trees that agree on the way could as well write in the other. -/
theorem Agree.write (h : Agree at_ fs gs) (hway : ∀ ns ∈ way fs.current path, at_ ns)
    (content : Bytes) :
    (∃ f, fs.write path content = .error f ∧ gs.write path content = .error f) ∨
      ∃ fs' gs', fs.write path content = .ok fs' ∧ gs.write path content = .ok gs' ∧
        Agree at_ fs' gs' := by
  unfold Files.write
  rw [h.start_eq path]
  cases hs : fs.start path with
  | error f => exact .inl ⟨f, rfl, rfl⟩
  | ok start =>
    have hway' : ∀ ns ∈ places start (Path.names path), gs.entry? ns = fs.entry? ns := by
      intro ns hns
      rw [start_eq_ok hs] at hns
      exact h.entry ns (hway ns hns)
    -- the way to the directory is part of the way
    obtain ⟨rest, hnames⟩ := Path.names_eq_append path
    have hdirectory : ∀ ns ∈ places start ((Path.parts path).dropLast.filter (· ≠ ".")),
        gs.entry? ns = fs.entry? ns := by
      intro ns hns
      refine hway' ns ?_
      rw [hnames]
      exact Path.places_prefix rest hns
    simp only [bind, Except.bind]
    rw [follow_congr hdirectory]
    cases hf : fs.follow start ((Path.parts path).dropLast.filter (· ≠ ".")) with
    | error f => exact .inl ⟨f, rfl, rfl⟩
    | ok directory =>
      have hplace := follow_eq_ok hf
      have hentry : gs.entry? directory = fs.entry? directory := by
        refine hdirectory directory ?_
        rw [hplace]
        exact Path.destination_mem_places _ _
      dsimp only
      rw [hentry]
      cases fs.entry? directory with
      | none => exact .inl ⟨_, rfl, rfl⟩
      | some e =>
        cases e with
        | file content => exact .inl ⟨_, rfl, rfl⟩
        | directory =>
          cases hl : (Path.parts path).getLast? with
          | none => exact .inl ⟨_, rfl, rfl⟩
          | some name =>
            dsimp only
            cases hd : Path.needsDirectory path with
            | true => exact .inl ⟨_, rfl, rfl⟩
            | false =>
              simp only [Bool.false_eq_true, if_false]
              obtain ⟨hall, hup⟩ := Path.names_of_last hd hl
              have hlast : gs.entry? (directory ++ [name]) = fs.entry? (directory ++ [name]) := by
                refine hway' _ ?_
                rw [hplace, ← Path.destination_concat hup, hall]
                exact Path.destination_mem_places _ _
              rw [hlast]
              split
              · exact .inl ⟨_, rfl, rfl⟩
              · split
                · exact .inl ⟨_, rfl, rfl⟩
                · exact .inr ⟨_, _, rfl, rfl, h.put (by simp) _⟩

/-- Where a file was written. -/
theorem Written.target_eq (w : Written fs path content fs') :
    w.directory ++ [w.name] = target fs.current path := by
  obtain ⟨hall, hup⟩ := Path.names_of_last w.isFilePath w.last
  have horigin : origin fs.current path = w.start := (start_eq_ok w.starts).symm
  unfold target
  rw [hall, Path.destination_concat hup, horigin, ← follow_eq_ok w.leads]

/-- A file that is written elsewhere makes no difference. -/
theorem Agree.write_elsewhere (h : Agree at_ fs gs) (hw : fs.write path content = .ok fs')
    (hne : ¬ at_ (target fs.current path)) : Agree at_ fs' gs := by
  obtain ⟨w⟩ := written_of_write hw
  refine ⟨by rw [h.current, w.current_eq], fun ns hns => ?_⟩
  rw [w.entry?_eq, if_neg, h.entry ns hns]
  rintro rfl
  rw [w.target_eq] at hns
  exact hne hns

end Files

end Rerun
