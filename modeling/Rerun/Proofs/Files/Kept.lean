import Rerun.Proofs.Site.Grown

/-!
# Files that stay

Where whatever stood in the files is still there, every path leads where it led (`Kept.find`).
Making directories takes nothing away (`kept_makeDirectories`). The entries of a directory are the
names that lead on from it (`Found.names_eq`), and a path of two names behind it passes through the
first of them (`Found.below`).
-/

namespace Rerun.Files

open Rerun.Path (IsPlain join)

variable {fs gs hs : Files}

/-! ## What stays -/

/-- Whatever stood in the files still stands there; anything may have come in addition. -/
structure Kept (fs gs : Files) : Prop where
  current : gs.current = fs.current
  kept : ∀ ns e, fs.entry? ns = some e → gs.entry? ns = some e

theorem Kept.refl (fs : Files) : Kept fs fs := ⟨rfl, fun _ _ h => h⟩

theorem Kept.trans (h : Kept fs gs) (h' : Kept gs hs) : Kept fs hs :=
  ⟨h'.current.trans h.current, fun ns e he => h'.kept ns e (h.kept ns e he)⟩

/-- A path leads the same way. -/
def Kept.found (h : Kept fs gs) {path : String} {e : Entry} (f : Found fs path e) :
    Found gs path e where
  start := f.start
  place := f.place
  starts := by
    rw [← f.starts]
    unfold Files.start
    rw [h.current]
  leads := follow_mono (fun ns => h.kept ns _) f.leads
  entry := h.kept _ _ f.entry
  isFilePath := f.isFilePath

/-- What a path led to it still leads to. -/
theorem Kept.find (h : Kept fs gs) {path : String} {e : Entry} (hf : fs.find path = .ok e) :
    gs.find path = .ok e := by
  obtain ⟨f⟩ := found_of_find hf
  exact (h.found f).find

theorem Kept.isFile (h : Kept fs gs) {path : String} (hf : fs.isFile path = true) :
    gs.isFile path = true := by
  obtain ⟨content, hfind⟩ := isFile_iff.1 hf
  exact isFile_iff.2 ⟨content, h.find hfind⟩

/-- Where every name has one entry, the order of the entries does not matter. -/
theorem kept_of_perm (hkeys : (fs.entries.map Prod.fst).Nodup) (hp : gs.entries.Perm fs.entries)
    (hc : gs.current = fs.current) : Kept fs gs := by
  refine ⟨hc, fun ns e he => ?_⟩
  unfold entry? at he ⊢
  split
  · rename_i hns
    rwa [if_pos hns] at he
  · rename_i hns
    rw [if_neg hns] at he
    have hkeys' : (gs.entries.map Prod.fst).Nodup := (hp.map Prod.fst).nodup_iff.2 hkeys
    exact Lookup.eq_some_of_mem hkeys' (hp.mem_iff.2 (Lookup.mem_of_eq_some he))

/-! ## Making directories -/

theorem kept_put {names : List String} (hn : fs.entry? names = none) (e : Entry) :
    Kept fs (fs.put names e) := by
  have hne : names ≠ [] := by
    rintro rfl
    cases hn
  refine ⟨?_, fun ns old hold => ?_⟩
  · unfold put
    split <;> rfl
  · rw [entry?_put fs hne, if_neg]
    · exact hold
    · rintro rfl
      rw [hn] at hold
      cases hold

theorem kept_makeAlong {at_ xs : List String} (h : fs.makeAlong at_ xs = .ok gs) : Kept fs gs := by
  fun_induction makeAlong fs at_ xs with
  | case1 => cases h; exact .refl _
  | case2 _ _ _ ih => exact ih h
  | case3 => cases h
  | case4 _ _ _ _ _ _ _ _ ih => exact ih h
  | case5 => cases h
  | case6 => cases h
  | case7 fs at_ name rest _ next _ hnone ih => exact (kept_put hnone _).trans (ih h)

/-- Making directories leaves everything where it is. -/
theorem kept_makeDirectories {path : String} (h : fs.makeDirectories path = .ok gs) :
    Kept fs gs := by
  unfold makeDirectories at h
  split at h
  · cases h
  · split at h
    · cases h
      exact .refl fs
    · exact kept_makeAlong h

/-! ## Entries of a directory -/

variable {root : String}

theorem found_of_isDirectory (h : fs.isDirectory root = true) :
    Nonempty (Found fs root .directory) := by
  unfold isDirectory at h
  split at h
  · rename_i hfind
    exact found_of_find hfind
  · cases h

theorem Found.locate_eq (f : Found fs root .directory) : fs.locate root = .ok f.place := by
  unfold locate
  simp only [bind, Except.bind, f.starts, f.leads, f.entry]
  rfl

/-- A directory lists the names under which something stands in it. -/
theorem Found.names_eq (f : Found fs root .directory) :
    ∃ names, fs.names root = .ok names ∧
      ∀ name, name ∈ names ↔ ∃ e, fs.entry? (f.place ++ [name]) = some e := by
  refine ⟨_, by unfold Files.names; simp only [bind, Except.bind, f.locate_eq, f.entry]; rfl, ?_⟩
  intro name
  have hne : f.place ++ [name] ≠ [] := by simp
  have hentry : fs.entry? (f.place ++ [name]) = fs.entries.lookup (f.place ++ [name]) := by
    unfold entry?
    rw [if_neg hne]
  rw [hentry, List.mem_filterMap]
  constructor
  · rintro ⟨⟨ns, e⟩, hmem, hname⟩
    dsimp only at hname
    split at hname
    · rename_i hplace
      have hdrop : ns.dropLast = f.place := by simpa using (Bool.and_eq_true_iff.1 hplace).2
      obtain rfl : ns = f.place ++ [name] := by
        rw [← hdrop]
        exact (List.dropLast_append_getLast? name hname).symm
      exact Option.isSome_iff_exists.1 (List.lookup_isSome_iff.2 ⟨_, hmem, by simp⟩)
    · cases hname
  · rintro ⟨e, he⟩
    refine ⟨_, Lookup.mem_of_eq_some he, ?_⟩
    simp

/-- Two names behind a directory lead through the first of them. -/
theorem Found.below {a b : String} {e : Entry} (f : Found fs root .directory)
    (g : Found fs (join (join root a) b) e) (ha : IsPlain a) (hb : IsPlain b) :
    fs.entry? (f.place ++ [a]) = some .directory ∧ g.place = f.place ++ [a] ++ [b] := by
  have hstart : g.start = f.start := by
    rw [start_eq_ok g.starts, start_eq_ok f.starts, Path.isAbsolute_join _ hb,
      Path.isAbsolute_join _ ha]
  have hleads := g.leads
  rw [Path.names_join _ hb, Path.names_join _ ha, List.append_assoc, hstart, follow_append,
    f.leads] at hleads
  change fs.follow f.place [a, b] = .ok g.place at hleads
  refine ⟨?_, follow_two_eq_ok ha.ne_up hb.ne_up hleads⟩
  rw [follow_name fs _ ha.ne_up, f.entry, follow_name fs _ hb.ne_up] at hleads
  dsimp only at hleads
  split at hleads
  · cases hleads
  · split at hleads
    · cases hleads
    · cases hleads
    · assumption

end Rerun.Files
