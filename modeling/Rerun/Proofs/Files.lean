import Rerun.Files
import Rerun.Proofs.Lookup

/-!
# Writing and reading files

A file that was written is read back (`Files.read_write`). Writing puts one entry in place of what
was no directory before, so every way that led somewhere through directories still does
(`Files.follow_mono`).
-/

namespace Rerun

namespace Files

/-! ## Entries -/

/-- Putting an entry changes what stands under its names, and nothing else. -/
theorem entry?_put (fs : Files) {names : List String} (hn : names ≠ []) (e : Entry)
    (ns : List String) :
    Files.entry? (fs.put names e) ns = if ns = names then some e else fs.entry? ns := by
  unfold put entry?
  by_cases hroot : ns = []
  · rw [if_pos hroot, if_pos hroot, if_neg (fun h => hn (h.symm.trans hroot))]
  · rw [if_neg hroot, if_neg hroot]
    split
    · rename_i hsome
      obtain ⟨old, hold⟩ := Option.isSome_iff_exists.1 hsome
      have h := Lookup.map_key fs.entries names ns fun _ => e
      rw [hold] at h
      exact h
    · rename_i hnone
      have hold : fs.entries.lookup names = none := Option.not_isSome_iff_eq_none.1 hnone
      dsimp only
      rw [Lookup.concat]
      split
      · rename_i hns
        rw [hns, hold, Option.none_or]
      · rw [Option.or_none]

/-! ## Ways -/

theorem follow_append (fs : Files) (at_ : List String) (xs ys : List String) :
    fs.follow at_ (xs ++ ys) = (fs.follow at_ xs).bind fun found => fs.follow found ys := by
  induction xs generalizing at_ with
  | nil => rfl
  | cons name xs ih =>
    rw [List.cons_append, follow, follow]
    split
    · rfl
    · rfl
    · split
      · rfl
      · split
        · exact ih _
        · exact ih _

/-- A way only passes through directories, so it stays as it is where these stay. -/
theorem follow_mono {fs gs : Files}
    (hd : ∀ ns, fs.entry? ns = some .directory → gs.entry? ns = some .directory)
    {at_ found : List String} {xs : List String} (h : fs.follow at_ xs = .ok found) :
    gs.follow at_ xs = .ok found := by
  induction xs generalizing at_ with
  | nil => exact h
  | cons name xs ih =>
    rw [follow] at h ⊢
    cases he : fs.entry? at_ with
    | none => rw [he] at h; cases h
    | some e =>
      rw [he] at h
      cases e with
      | file content => cases h
      | directory =>
        rw [hd at_ he]
        dsimp only at h ⊢
        split at h
        · cases h
        · rename_i hlen
          rw [if_neg hlen]
          split at h
          · rename_i hup
            rw [if_pos hup]
            exact ih h
          · rename_i hup
            rw [if_neg hup]
            exact ih h

/-! ## Writing -/

/-- What a write that succeeds found, and what it did. -/
structure Written (fs : Files) (path : String) (content : Bytes) (gs : Files) where
  start : List String
  directory : List String
  name : String
  starts : fs.start path = .ok start
  leads : fs.follow start ((Path.parts path).dropLast.filter (· ≠ ".")) = .ok directory
  isDirectory : fs.entry? directory = some .directory
  last : (Path.parts path).getLast? = some name
  isFilePath : Path.needsDirectory path = false
  isShort : name.utf8ByteSize ≤ Path.maxNameLength
  isFree : fs.entry? (directory ++ [name]) ≠ some .directory
  result : gs = fs.put (directory ++ [name]) (.file content)

theorem written_of_write {fs gs : Files} {path : String} {content : Bytes}
    (h : fs.write path content = .ok gs) : Nonempty (Written fs path content gs) := by
  simp only [write, bind, Except.bind] at h
  cases hs : fs.start path with
  | error f => rw [hs] at h; cases h
  | ok start =>
    rw [hs] at h
    dsimp only at h
    cases hd : fs.follow start ((Path.parts path).dropLast.filter (· ≠ ".")) with
    | error f => rw [hd] at h; cases h
    | ok directory =>
      rw [hd] at h
      dsimp only at h
      split at h
      · cases h
      · cases h
      · cases h
      · rename_i name hdir hlast
        split at h
        · cases h
        · rename_i hfile
          split at h
          · cases h
          · rename_i hlen
            split at h
            · cases h
            · rename_i hfree
              cases h
              exact ⟨⟨start, directory, name, hs, hd, hdir, hlast, by simpa using hfile,
                by omega, hfree, rfl⟩⟩

theorem Written.write {fs gs : Files} {path : String} {content : Bytes}
    (w : Written fs path content gs) : fs.write path content = .ok gs := by
  obtain ⟨start, directory, name, hstart, hway, hdirectory, hlast, hfile, hshort, hfree, rfl⟩ := w
  unfold Files.write
  simp only [bind, Except.bind, hstart, hway, hdirectory, hlast, hfile]
  simp [Nat.not_lt.2 hshort, hfree, pure, Except.pure]

/-- A file can be written at a path. -/
def IsWritable (fs : Files) (path : String) : Prop :=
  ∃ content gs, fs.write path content = .ok gs

/-- It does not matter what is written. -/
theorem IsWritable.write {fs : Files} {path : String} (h : fs.IsWritable path) (content : Bytes) :
    ∃ gs, fs.write path content = .ok gs := by
  obtain ⟨other, gs, hwrite⟩ := h
  obtain ⟨w⟩ := written_of_write hwrite
  exact ⟨_, Written.write { w with result := rfl }⟩

end Files

namespace Path

/-- The last name of a path that need not mean a directory leads to no other place. -/
theorem names_of_last {path name : String} (hn : needsDirectory path = false)
    (hl : (parts path).getLast? = some name) :
    names path = (parts path).dropLast.filter (· ≠ ".") ++ [name] ∧ name ≠ ".." := by
  unfold needsDirectory at hn
  cases hc : (cut path.toList).getLast? with
  | none =>
    have hnil : cut path.toList = [] := List.getLast?_eq_none_iff.1 hc
    unfold parts at hl
    rw [hnil] at hl
    cases hl
  | some last =>
    rw [hc] at hn
    have hlast : last ≠ [] ∧ last ≠ ['.'] ∧ last ≠ ['.', '.'] := by
      simpa [not_or, and_assoc] using hn
    obtain ⟨init, hinit⟩ := List.getLast?_eq_some_iff.1 hc
    have hparts : parts path = (init.map String.ofList).filter (· ≠ "") ++ [String.ofList last] := by
      have hne : String.ofList last ≠ "" := by
        intro h
        have := congrArg String.toList h
        simp at this
        exact hlast.1 this
      unfold parts
      rw [hinit, List.map_append, List.filter_append]
      simp [hne]
    rw [hparts, List.getLast?_concat] at hl
    cases hl
    have hdot : String.ofList last ≠ "." := by
      intro h
      have := congrArg String.toList h
      rw [String.toList_ofList] at this
      exact hlast.2.1 this
    have hup : String.ofList last ≠ ".." := by
      intro h
      have := congrArg String.toList h
      rw [String.toList_ofList] at this
      exact hlast.2.2 this
    refine ⟨?_, hup⟩
    unfold names
    rw [hparts, List.dropLast_concat, List.filter_append]
    simp [hdot]

end Path

namespace Files

namespace Written

variable {fs gs : Files} {path : String} {content : Bytes}

theorem entry?_eq (w : Written fs path content gs) (ns : List String) :
    gs.entry? ns = if ns = w.directory ++ [w.name] then some (.file content) else fs.entry? ns := by
  obtain ⟨_, directory, name, _, _, _, _, _, _, _, rfl⟩ := w
  exact entry?_put fs (by simp) _ ns

theorem current_eq (w : Written fs path content gs) : gs.current = fs.current := by
  rw [w.result]
  unfold put
  split <;> rfl

/-- Writing a file leaves every directory. -/
theorem keeps (w : Written fs path content gs) (ns : List String)
    (h : fs.entry? ns = some .directory) : gs.entry? ns = some .directory := by
  rw [w.entry?_eq, if_neg]
  · exact h
  · rintro rfl
    exact w.isFree h

/-- The path of a file that was written leads to it. -/
theorem find_eq (w : Written fs path content gs) : gs.find path = .ok (.file content) := by
  obtain ⟨hnames, hup⟩ := Path.names_of_last w.isFilePath w.last
  have hstart : gs.start path = .ok w.start := by
    rw [← w.starts]
    unfold Files.start
    rw [w.current_eq]
  have hfollow : gs.follow w.start (Path.names path) = .ok (w.directory ++ [w.name]) := by
    rw [hnames, follow_append, follow_mono w.keeps w.leads]
    show gs.follow w.directory [w.name] = _
    rw [follow, w.keeps _ w.isDirectory]
    dsimp only
    rw [if_neg (Nat.not_lt.2 w.isShort), if_neg hup]
    rfl
  have hentry : gs.entry? (w.directory ++ [w.name]) = some (.file content) := by
    rw [w.entry?_eq, if_pos rfl]
  have hlocate : gs.locate path = .ok (w.directory ++ [w.name]) := by
    unfold locate
    simp only [bind, Except.bind, hstart, hfollow, hentry, w.isFilePath]
    rfl
  unfold find
  simp only [bind, Except.bind, hlocate, hentry]
  rfl

end Written

/-- A file that was written is read back. -/
theorem read_write {fs gs : Files} {path : String} {content : Bytes}
    (h : fs.write path content = .ok gs) : gs.read path = .ok content := by
  obtain ⟨w⟩ := written_of_write h
  unfold read
  simp only [bind, Except.bind, w.find_eq]
  rfl

/-- A file that holds the form of a text is read as this text. -/
theorem readText_of_read {fs : Files} {path text : String}
    (h : fs.read path = .ok (Bytes.ofText text)) : fs.readText path = .ok text := by
  unfold readText
  rw [h]
  simp [bind, Except.bind, pure, Except.pure]

end Files

end Rerun
