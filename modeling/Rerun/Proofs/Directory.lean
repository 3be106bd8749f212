import Rerun.Proofs.Digest
import Rerun.Proofs.Files

/-!
# Files in directories side by side

A path can be put together of a directory and names in it. Writing a file in one directory changes
nothing of what other paths of this kind lead to (`Written.find_other`).
-/

namespace Rerun

namespace Path

/-- A name that stands for an entry of its directory, and for nothing else. -/
structure IsPlain (name : String) : Prop where
  ne_empty : name ≠ ""
  no_slash : '/' ∉ name.toList
  ne_dot : name ≠ "."
  ne_up : name ≠ ".."

/-! ## Cutting -/

theorem cut_ne_nil (cs : List Char) : cut cs ≠ [] := by
  cases cs with
  | nil => simp [cut]
  | cons c cs =>
    rw [cut]
    split
    · simp
    · split <;> simp

theorem cut_of_no_slash {cs : List Char} (h : '/' ∉ cs) : cut cs = [cs] := by
  induction cs with
  | nil => rfl
  | cons c cs ih =>
    have hc : c ≠ '/' := fun hc => h (by simp [hc])
    have hcs : '/' ∉ cs := fun hcs => h (by simp [hcs])
    rw [cut, if_neg (by simpa using hc), ih hcs]

theorem cut_append_slash (xs ys : List Char) : cut (xs ++ '/' :: ys) = cut xs ++ cut ys := by
  induction xs with
  | nil => rfl
  | cons c xs ih =>
    rw [List.cons_append, cut, cut, ih]
    by_cases hc : c = '/'
    · simp [hc]
    · rw [if_neg (by simpa using hc), if_neg (by simpa using hc)]
      cases hx : cut xs with
      | nil => exact absurd hx (cut_ne_nil xs)
      | cons part parts => rfl

/-! ## Joining -/

theorem isAbsolute_of_plain {name : String} (h : IsPlain name) : isAbsolute name = false := by
  unfold isAbsolute
  cases hn : name.toList with
  | nil => rfl
  | cons c cs =>
    have hc : c ≠ '/' := by
      rintro rfl
      exact h.no_slash (by simp [hn])
    simpa using hc

theorem parts_of_plain {name : String} (h : IsPlain name) : parts name = [name] := by
  unfold parts
  rw [cut_of_no_slash h.no_slash]
  simp [h.ne_empty]

/-- A name in a directory comes behind the names that lead to the directory. -/
theorem parts_join (directory : String) {name : String} (h : IsPlain name) :
    parts (join directory name) = parts directory ++ [name] := by
  have hself := parts_of_plain h
  unfold join
  rw [isAbsolute_of_plain h]
  simp only [Bool.false_eq_true, ↓reduceIte, Bool.or_eq_true, beq_iff_eq]
  split
  · rename_i hends
    rcases hends with hempty | hslash
    · have hnil : directory = "" := by simpa using hempty
      subst hnil
      simpa [parts, cut] using hself
    · obtain ⟨cs, hcs⟩ := List.getLast?_eq_some_iff.1 hslash
      unfold parts at hself ⊢
      rw [String.toList_append, hcs, List.append_assoc, List.singleton_append,
        cut_append_slash, List.map_append, List.filter_append, hself]
      simp [cut_append_slash, cut]
  · unfold parts at hself ⊢
    have hlist : (directory ++ "/" ++ name).toList =
        directory.toList ++ '/' :: name.toList := by simp
    rw [hlist, cut_append_slash, List.map_append, List.filter_append, hself]

theorem names_join (directory : String) {name : String} (h : IsPlain name) :
    names (join directory name) = names directory ++ [name] := by
  unfold names
  rw [parts_join directory h, List.filter_append]
  simp [h.ne_dot]

theorem isAbsolute_join (directory : String) {name : String} (h : IsPlain name) :
    isAbsolute (join directory name) = isAbsolute directory := by
  have hname := isAbsolute_of_plain h
  unfold join
  rw [hname]
  simp only [Bool.false_eq_true, ↓reduceIte, Bool.or_eq_true, beq_iff_eq]
  unfold isAbsolute at hname ⊢
  cases hd : directory.toList with
  | nil =>
    have hnil : directory = "" := by rwa [← String.toList_eq_nil_iff]
    subst hnil
    simpa using hname
  | cons c cs =>
    split <;> simp [hd]

/-- A directory can go by a digest. -/
theorem isPlain_text (d : Digest) : IsPlain d.text where
  ne_empty h := by simpa [h] using d.toList_text
  no_slash h := (d.text_class h).2 rfl
  ne_dot h := by simpa [h] using d.toList_text
  ne_up h := by simpa [h] using d.toList_text

end Path

namespace Files

open Rerun.Path (IsPlain join)

/-! ## Two names behind a common directory -/

theorem follow_name (fs : Files) (at_ : List String) {name : String} (hup : name ≠ "..")
    (rest : List String) :
    fs.follow at_ (name :: rest) =
      match fs.entry? at_ with
      | none => .error .notFound
      | some (.file _) => .error .notDirectory
      | some .directory =>
        if Path.maxNameLength < name.utf8ByteSize then .error .nameTooLong
        else fs.follow (at_ ++ [name]) rest := by
  rw [follow]
  cases fs.entry? at_ with
  | none => rfl
  | some e =>
    cases e with
    | file content => rfl
    | directory => simp only [if_neg hup]

/-- Two names lead alike where the directories on the way are alike. -/
theorem follow_two_congr {fs gs : Files} {at_ : List String} {a b : String} (ha : a ≠ "..")
    (hb : b ≠ "..") (hat : gs.entry? at_ = fs.entry? at_)
    (hnext : gs.entry? (at_ ++ [a]) = fs.entry? (at_ ++ [a])) :
    gs.follow at_ [a, b] = fs.follow at_ [a, b] := by
  rw [follow_name gs _ ha, follow_name fs _ ha, hat, follow_name gs _ hb, follow_name fs _ hb,
    hnext]
  rfl

theorem follow_two_eq_ok {fs : Files} {at_ found : List String} {a b : String} (ha : a ≠ "..")
    (hb : b ≠ "..") (h : fs.follow at_ [a, b] = .ok found) : found = at_ ++ [a] ++ [b] := by
  rw [follow_name fs _ ha, follow_name fs _ hb] at h
  split at h
  · cases h
  · cases h
  · split at h
    · cases h
    · split at h
      · cases h
      · cases h
      · split at h
        · cases h
        · cases h
          rfl

theorem start_eq_ok {fs : Files} {path : String} {at_ : List String}
    (h : fs.start path = .ok at_) : at_ = if Path.isAbsolute path then [] else fs.current := by
  unfold Files.start at h
  split at h
  · cases h
  · split at h
    · cases h
    · split at h
      · cases h
      · cases h
        rfl

variable {fs gs : Files} {root : String} {a b : String} {content : Bytes}

/-- Where a file was written that lies two names behind a directory. -/
theorem Written.place (w : Written fs (join (join root a) b) content gs) (ha : IsPlain a)
    (hb : IsPlain b) :
    ∃ at_, fs.follow w.start (Path.names root) = .ok at_ ∧ fs.entry? at_ = some .directory ∧
      w.directory ++ [w.name] = at_ ++ [a] ++ [b] := by
  have hparts : Path.parts (join (join root a) b) = Path.parts root ++ [a] ++ [b] := by
    rw [Path.parts_join _ hb, Path.parts_join _ ha]
  have hname : w.name = b := by
    have hlast := w.last
    rw [hparts, List.getLast?_concat] at hlast
    exact (Option.some.inj hlast).symm
  have hleads := w.leads
  rw [hparts, List.dropLast_concat, List.filter_append] at hleads
  have hfilter : [a].filter (· ≠ ".") = [a] := by simp [ha.ne_dot]
  rw [hfilter, follow_append] at hleads
  change (fs.follow w.start (Path.names root)).bind _ = _ at hleads
  cases hroot : fs.follow w.start (Path.names root) with
  | error f => rw [hroot] at hleads; cases hleads
  | ok at_ =>
    rw [hroot] at hleads
    change fs.follow at_ [a] = _ at hleads
    rw [follow_name fs _ ha.ne_up] at hleads
    split at hleads
    · cases hleads
    · cases hleads
    · rename_i hdir
      split at hleads
      · cases hleads
      · have hd : at_ ++ [a] = w.directory := Except.ok.inj hleads
        exact ⟨at_, rfl, hdir, by rw [hname, hd]⟩

/-- A path leads to the same entry where it starts and is followed alike, and ends alike. -/
theorem find_congr {path : String} (hstart : gs.start path = fs.start path)
    (hfollow : ∀ start, fs.start path = .ok start →
      gs.follow start (Path.names path) = fs.follow start (Path.names path))
    (hentry : ∀ start found, fs.start path = .ok start →
      fs.follow start (Path.names path) = .ok found → gs.entry? found = fs.entry? found) :
    gs.find path = fs.find path := by
  unfold find locate
  rw [hstart]
  cases hs : fs.start path with
  | error f => simp only [bind, Except.bind]
  | ok start =>
    simp only [bind, Except.bind]
    rw [hfollow start hs]
    cases hf : fs.follow start (Path.names path) with
    | error f => rfl
    | ok found =>
      have hfound := hentry start found hs hf
      dsimp only
      rw [hfound]
      cases he : fs.entry? found with
      | none => simp [pure, Except.pure, hfound, he]
      | some e =>
        cases e <;> cases Path.needsDirectory path <;> simp [pure, Except.pure, hfound, he]

/-- A file that was written changes nothing two other names behind the same directory. -/
theorem Written.find_other {a' b' : String} (w : Written fs (join (join root a) b) content gs)
    (ha : IsPlain a) (hb : IsPlain b) (ha' : IsPlain a') (hb' : IsPlain b')
    (hne : ¬ (a' = a ∧ b' = b)) :
    gs.find (join (join root a') b') = fs.find (join (join root a') b') := by
  obtain ⟨at_, hroot, hdir, hplace⟩ := w.place ha hb
  have hother : ∀ ns, ns ≠ at_ ++ [a] ++ [b] → gs.entry? ns = fs.entry? ns := by
    intro ns hns
    rw [w.entry?_eq, hplace, if_neg hns]
  have hnames : Path.names (join (join root a') b') = Path.names root ++ [a', b'] := by
    rw [Path.names_join _ hb', Path.names_join _ ha', List.append_assoc]
    rfl
  -- both paths are taken from the same directory
  have hstart : ∀ start, fs.start (join (join root a') b') = .ok start → start = w.start := by
    intro start hs
    rw [start_eq_ok hs, start_eq_ok w.starts, Path.isAbsolute_join _ hb',
      Path.isAbsolute_join _ ha', Path.isAbsolute_join _ hb, Path.isAbsolute_join _ ha]
  have hfs : fs.follow w.start (Path.names root ++ [a', b']) = fs.follow at_ [a', b'] := by
    rw [follow_append, hroot]
    rfl
  have hgs : gs.follow w.start (Path.names root ++ [a', b']) = fs.follow at_ [a', b'] := by
    rw [follow_append, follow_mono w.keeps hroot]
    refine follow_two_congr ha'.ne_up hb'.ne_up (hother at_ ?_) (hother _ ?_)
    · intro h
      have hlen := congrArg List.length h
      simp at hlen
    · intro h
      have hlen := congrArg List.length h
      simp at hlen
  apply find_congr
  · unfold Files.start
    rw [w.current_eq]
  · intro start hs
    rw [hstart start hs, hnames, hgs, hfs]
  · intro start found hs hf
    rw [hstart start hs, hnames, hfs] at hf
    rw [follow_two_eq_ok ha'.ne_up hb'.ne_up hf]
    apply hother
    intro h
    obtain ⟨h, hb⟩ := List.append_inj' h rfl
    obtain ⟨-, ha⟩ := List.append_inj' h rfl
    exact hne ⟨by simpa using ha, by simpa using hb⟩

end Files

end Rerun
