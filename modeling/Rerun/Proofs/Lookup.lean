/-!
# Entries by key

What looking a key up gives after the entries of a key were changed or removed.
-/

namespace Rerun.Lookup

variable {κ α : Type} [BEq κ] [LawfulBEq κ] [DecidableEq κ]

theorem cons (k x : κ) (a : α) (xs : List (κ × α)) :
    ((x, a) :: xs).lookup k = if k = x then some a else xs.lookup k := by
  rw [List.lookup_cons]
  by_cases h : k = x
  · simp [h]
  · simp [h, beq_false_of_ne h]

/-- Changing the entries of a key. -/
theorem map_key (xs : List (κ × α)) (key k : κ) (f : α → α) :
    (xs.map fun (x, a) => if x = key then (x, f a) else (x, a)).lookup k =
      if k = key then (xs.lookup key).map f else xs.lookup k := by
  induction xs with
  | nil => simp
  | cons x xs ih =>
    obtain ⟨x, a⟩ := x
    rw [List.map_cons, cons, cons]
    by_cases hx : x = key
    · subst hx
      rw [if_pos rfl, cons, ih, if_pos rfl]
      split <;> rfl
    · rw [if_neg hx, cons, ih, if_neg (Ne.symm hx)]
      by_cases hk : k = key
      · rw [if_pos hk, if_pos hk, if_neg (fun h => hx (h.symm.trans hk))]
      · rw [if_neg hk, if_neg hk]

/-- Removing the entries of a key. -/
theorem filter_key (xs : List (κ × α)) (key k : κ) :
    (xs.filter fun (x, _) => x ≠ key).lookup k = if k = key then none else xs.lookup k := by
  induction xs with
  | nil => simp
  | cons x xs ih =>
    obtain ⟨x, a⟩ := x
    rw [cons]
    by_cases hx : x = key
    · rw [List.filter_cons_of_neg (by simpa using hx), ih]
      by_cases hk : k = key
      · rw [if_pos hk, if_pos hk]
      · rw [if_neg hk, if_neg hk, if_neg (fun h => hk (h.trans hx))]
    · rw [List.filter_cons_of_pos (by simpa using hx), cons, ih]
      by_cases hk : k = key
      · rw [if_pos hk, if_pos hk, if_neg (fun h => hx (h.symm.trans hk))]
      · rw [if_neg hk, if_neg hk]

/-- One more entry at the end. -/
theorem concat (xs : List (κ × α)) (key k : κ) (a : α) :
    (xs ++ [(key, a)]).lookup k = (xs.lookup k).or (if k = key then some a else none) := by
  rw [List.lookup_append, cons, List.lookup_nil]

/-- Where every key has one entry, looking a key up finds it. -/
theorem eq_some_of_mem {xs : List (κ × α)} (hkeys : (xs.map Prod.fst).Nodup) {k : κ} {a : α}
    (h : (k, a) ∈ xs) : xs.lookup k = some a := by
  induction xs with
  | nil => cases h
  | cons x xs ih =>
    obtain ⟨x, b⟩ := x
    obtain ⟨hx, hkeys⟩ := List.nodup_cons.1 hkeys
    rw [cons]
    cases h with
    | head => rw [if_pos rfl]
    | tail _ h =>
      have hne : k ≠ x := by
        rintro rfl
        exact hx (List.mem_map.2 ⟨_, h, rfl⟩)
      rw [if_neg hne]
      exact ih hkeys h

omit [DecidableEq κ] in
/-- What looking a key up finds is an entry. -/
theorem mem_of_eq_some {xs : List (κ × α)} {k : κ} {a : α} (h : xs.lookup k = some a) :
    (k, a) ∈ xs := by
  obtain ⟨before, behind, hxs, -⟩ := List.lookup_eq_some_iff.1 h
  rw [hxs]
  simp

end Rerun.Lookup
