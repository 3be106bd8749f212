import Mathlib.Data.List.Sort
import Rerun.Locator
import Rerun.Proofs.Digest.Order
import Rerun.Proofs.Files.Kept

/-!
# What a search finds

The machines under a root are those whose directories hold a marker that spells their module root,
in ascending order and each once, whatever the order of the directory
(`Locator.search_of_directory`).
-/

namespace Rerun

/-! ## Markers -/

/-- Blanks behind a text are dropped. -/
theorem Text.trimChars_append {cs bs : List Char} (hne : cs ≠ [])
    (hcs : ∀ c ∈ cs, isBlank c = false) (hbs : ∀ c ∈ bs, isBlank c = true) :
    trimChars (cs ++ bs) = cs := by
  have hfront : ∀ {xs : List Char} (ys : List Char), xs ≠ [] → (∀ c ∈ xs, isBlank c = false) →
      (xs ++ ys).dropWhile isBlank = xs ++ ys := by
    intro xs ys hxs h
    cases xs with
    | nil => exact absurd rfl hxs
    | cons x xs =>
      rw [List.cons_append, List.dropWhile_cons, h x List.mem_cons_self, if_neg (by simp)]
  have hback : (bs.reverse ++ cs.reverse).dropWhile isBlank = cs.reverse.dropWhile isBlank :=
    List.dropWhile_append_of_pos fun c hc => hbs c (List.mem_reverse.1 hc)
  unfold trimChars
  rw [hfront bs hne hcs, List.reverse_append, hback]
  have hstop := hfront [] (List.reverse_ne_nil_iff.2 hne)
    fun c hc => hcs c (List.mem_reverse.1 hc)
  rw [List.append_nil] at hstop
  rw [hstop, List.reverse_reverse]

/-- The text of a digest on a line of its own is that of the digest. -/
theorem Digest.trim_line (d : Digest) : Text.trim (d.text ++ "\n") = d.text := by
  have hne : d.text.toList ≠ [] := by
    rw [d.toList_text]
    simp
  have hline : ("\n" : String).toList = ['\n'] := by decide
  have hblank : ∀ c ∈ ['\n'], Text.isBlank c = true := by
    intro c hc
    obtain rfl := List.mem_singleton.1 hc
    rfl
  unfold Text.trim
  rw [String.toList_append, hline,
    Text.trimChars_append hne (fun c hc => (d.text_class hc).1) hblank, String.ofList_toList]

namespace Locator

/-- The marker in a directory under a root. -/
def markerPath (root name : String) : String := Path.join (Path.join root name) markerName

theorem isPlain_markerName : Path.IsPlain markerName :=
  ⟨by decide, by decide, by decide, by decide⟩

/-- A line with the text of a digest is a marker. -/
theorem readMarker_of_line {fs : Files} {path : String} {d : Digest}
    (h : fs.find path = .ok (.file (Bytes.ofText (d.text ++ "\n")))) :
    readMarker fs path = .ok d := by
  have hread : fs.readText path = .ok (d.text ++ "\n") := by
    simp only [Files.readText, Files.read, bind, Except.bind, h, pure, Except.pure,
      Bytes.text?_ofText]
  unfold readMarker
  rw [hread]
  dsimp only
  rw [d.trim_line, Digest.parse_text]

/-- A marker is a file. -/
theorem isFile_of_readMarker {fs : Files} {path : String} {d : Digest}
    (h : readMarker fs path = .ok d) : fs.isFile path = true := by
  unfold readMarker at h
  split at h
  · cases h
  · rename_i text hread
    cases hcontent : fs.read path with
    | error fault =>
      simp only [Files.readText, bind, Except.bind, hcontent] at hread
      cases hread
    | ok content => exact Files.isFile_iff.2 ⟨content, Files.find_of_read hcontent⟩

theorem readMarker_of_kept {fs gs : Files} (h : fs.Kept gs) {path : String} {d : Digest}
    (hd : readMarker fs path = .ok d) : readMarker gs path = .ok d := by
  obtain ⟨content, hcontent⟩ := Files.isFile_iff.1 (isFile_of_readMarker hd)
  unfold readMarker Files.readText Files.read at hd ⊢
  rw [hcontent] at hd
  rw [h.find hcontent]
  exact hd

theorem text_ne_latestName (d : Digest) : d.text ≠ latestName := by
  intro h
  have hfirst := congrArg (fun s => s.toList.head?) h
  rw [d.toList_text, List.head?_cons] at hfirst
  exact absurd hfirst (by decide)

/-! ## Collecting -/

theorem mem_insertRoot {d e : Digest} {roots : List Digest} :
    e ∈ insertRoot d roots ↔ e = d ∨ e ∈ roots := by
  induction roots with
  | nil => simp [insertRoot]
  | cons f rest ih =>
    unfold insertRoot
    split
    · rename_i hdf
      subst hdf
      simp
    · split
      · simp
      · rw [List.mem_cons, List.mem_cons, ih]
        exact or_left_comm

theorem insertRoot_ascending {d : Digest} {roots : List Digest}
    (h : roots.Pairwise Digest.Before) : (insertRoot d roots).Pairwise Digest.Before := by
  induction roots with
  | nil => exact List.pairwise_singleton _ _
  | cons e rest ih =>
    obtain ⟨hhead, htail⟩ := List.pairwise_cons.1 h
    unfold insertRoot
    by_cases hde : d = e
    · rw [if_pos hde]
      exact h
    · rw [if_neg hde]
      by_cases hle : d.le e = true
      · have hbefore := Digest.before_of_le hde hle
        rw [if_pos hle]
        exact .cons (List.forall_mem_cons.2 ⟨hbefore, fun f hf => hbefore.trans (hhead f hf)⟩) h
      · rw [if_neg hle]
        refine .cons (fun f hf => ?_) (ih htail)
        obtain rfl | hf := mem_insertRoot.1 hf
        · exact Digest.before_of_not_le hle
        · exact hhead f hf

/-- A directory counts for a module root if its marker spells it and it is not the newest one. -/
def Marks (fs : Files) (root name : String) (d : Digest) : Prop :=
  name ≠ latestName ∧ readMarker fs (markerPath root name) = .ok d

/-- Takes a directory into the roots that were found. -/
def note (fs : Files) (root : String) (roots : List Digest) (name : String) : List Digest :=
  if name = latestName || !fs.isFile (markerPath root name) then roots
  else match readMarker fs (markerPath root name) with
    | .ok d => insertRoot d roots
    | .error _ => roots

theorem note_cases (fs : Files) (root : String) (roots : List Digest) (name : String) :
    (∃ d, Marks fs root name d ∧ note fs root roots name = insertRoot d roots) ∨
      (∀ d, ¬ Marks fs root name d) ∧ note fs root roots name = roots := by
  unfold note Marks
  by_cases hlatest : name = latestName
  · simp [hlatest]
  · cases hread : readMarker fs (markerPath root name) with
    | error e => simp
    | ok d => simp [hlatest, isFile_of_readMarker hread]

theorem foldl_note (fs : Files) (root : String) (names : List String) {roots : List Digest}
    (h : roots.Pairwise Digest.Before) :
    (names.foldl (note fs root) roots).Pairwise Digest.Before ∧
      ∀ d, d ∈ names.foldl (note fs root) roots ↔
        d ∈ roots ∨ ∃ name ∈ names, Marks fs root name d := by
  induction names generalizing roots with
  | nil => exact ⟨h, by simp⟩
  | cons name names ih =>
    rw [List.foldl_cons]
    obtain ⟨e, hmarks, hnote⟩ | ⟨hno, hnote⟩ := note_cases fs root roots name
    · obtain ⟨hascending, hmem⟩ := ih (insertRoot_ascending (d := e) h)
      rw [hnote]
      refine ⟨hascending, fun d => ?_⟩
      have hhere : Marks fs root name d ↔ d = e := by
        refine ⟨fun hd => ?_, fun hd => hd ▸ hmarks⟩
        exact Except.ok.inj (hd.2.symm.trans hmarks.2)
      rw [hmem, mem_insertRoot, List.exists_mem_cons_iff, hhere, or_assoc, or_left_comm]
    · obtain ⟨hascending, hmem⟩ := ih h
      rw [hnote]
      refine ⟨hascending, fun d => ?_⟩
      rw [hmem, List.exists_mem_cons_iff]
      simp [hno d]

/-! ## Searching -/

theorem isEmpty_of_isDirectory {fs : Files} {root : String} (h : fs.isDirectory root = true) :
    root.isEmpty = false := by
  by_contra hempty
  obtain rfl : root = "" := by simpa using hempty
  cases h

/-- A root that is given is all that is searched. -/
theorem search_of_given (fs : Files) {root : String} (h : root.isEmpty = false)
    (programDirectory : Option String) : search fs root programDirectory = search fs root := by
  unfold search
  rw [h]
  rfl

/-- Without a root the first of the usual places that is there is searched. -/
theorem search_of_default (fs : Files) {programDirectory : Option String} {root : String}
    (h : defaultRoot fs programDirectory = .ok root) :
    search fs "" programDirectory = search fs root := by
  have hfound : (defaultRoots programDirectory).find? fs.isDirectory = some root := by
    unfold defaultRoot at h
    split at h <;> cases h
    assumption
  have hgiven := isEmpty_of_isDirectory (List.find?_some hfound)
  unfold search
  rw [hgiven, h]
  rfl

/-- Without a root, and with nothing in the usual places, nothing is searched. -/
theorem search_of_lost (fs : Files) {programDirectory : Option String}
    (h : ∀ root ∈ defaultRoots programDirectory, fs.isDirectory root = false) :
    search fs "" programDirectory = .error (.invalidConfig
      "no machine root path configured and no default machines directory found") := by
  have hnone : (defaultRoots programDirectory).find? fs.isDirectory = none := by
    rw [List.find?_eq_none]
    intro root hroot
    simp [h root hroot]
  have hdefault : defaultRoot fs programDirectory = .error (.invalidConfig
      "no machine root path configured and no default machines directory found") := by
    unfold defaultRoot
    rw [hnone]
  unfold search
  rw [hdefault]
  rfl

theorem search_eq {fs : Files} {root : String} {names : List String}
    (hdirectory : fs.isDirectory root = true) (hnames : fs.names root = .ok names)
    (hlatest : fs.isFile (markerPath root latestName) = false) :
    search fs root = .ok ⟨root, none, names.foldl (note fs root) []⟩ := by
  unfold search
  rw [isEmpty_of_isDirectory hdirectory]
  simp only [Bool.false_eq_true, if_false, bind, Except.bind]
  rw [hdirectory, hnames]
  show (if fs.isFile (markerPath root latestName) = true then _ else _) = _
  rw [hlatest]
  rfl

/-- Searching a directory that names no newest machine finds the module roots that its directories
are marked with, in ascending order and each once. -/
theorem search_of_directory {fs : Files} {root : String} (f : Files.Found fs root .directory)
    (hlatest : fs.isFile (markerPath root latestName) = false) :
    ∃ l, search fs root = .ok l ∧ l.rootPath = root ∧ l.latest = none ∧
      l.roots.Pairwise Digest.Before ∧
        ∀ d, d ∈ l.roots ↔
          ∃ name e, fs.entry? (f.place ++ [name]) = some e ∧ Marks fs root name d := by
  obtain ⟨names, hnames, hmem⟩ := f.names_eq
  have hdirectory : fs.isDirectory root = true := by
    unfold Files.isDirectory
    rw [f.find]
  obtain ⟨hascending, hroots⟩ := foldl_note fs root names List.Pairwise.nil
  refine ⟨_, search_eq hdirectory hnames hlatest, rfl, rfl, hascending, fun d => ?_⟩
  rw [hroots]
  simp only [List.not_mem_nil, false_or, hmem]
  constructor
  · rintro ⟨name, ⟨e, he⟩, hmarks⟩
    exact ⟨name, e, he, hmarks⟩
  · rintro ⟨name, e, he, hmarks⟩
    exact ⟨name, ⟨e, he⟩, hmarks⟩

theorem Marks.kept {fs gs : Files} (h : fs.Kept gs) {root name : String} {d : Digest}
    (hd : Marks fs root name d) : Marks gs root name d := ⟨hd.1, readMarker_of_kept h hd.2⟩

/-- The order of the entries does not show in what is found. -/
theorem search_congr {fs gs : Files} (h : fs.Kept gs) (h' : gs.Kept fs) {root : String}
    (f : Files.Found fs root .directory)
    (hlatest : fs.isFile (markerPath root latestName) = false) :
    search gs root = search fs root := by
  have hlatest' : gs.isFile (markerPath root latestName) = false := by
    rw [Bool.eq_false_iff] at hlatest ⊢
    exact fun hfile => hlatest (h'.isFile hfile)
  obtain ⟨l, hl, hpath, hnone, hascending, hmem⟩ := search_of_directory f hlatest
  obtain ⟨l', hl', hpath', hnone', hascending', hmem'⟩ :=
    search_of_directory (h.found f) hlatest'
  have hroots : l'.roots = l.roots := by
    refine List.Pairwise.eq_of_mem_iff hascending' hascending fun d => ?_
    rw [hmem, hmem']
    constructor
    · rintro ⟨name, e, he, hmarks⟩
      exact ⟨name, e, h'.kept _ _ he, hmarks.kept h'⟩
    · rintro ⟨name, e, he, hmarks⟩
      exact ⟨name, e, h.kept _ _ he, hmarks.kept h⟩
  rw [hl, hl']
  cases l
  cases l'
  cases hpath
  cases hpath'
  cases hnone
  cases hnone'
  cases hroots
  rfl

end Locator

end Rerun
