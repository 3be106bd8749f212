import Mathlib.Data.List.Induction
import Mathlib.Data.List.Sort
import Rerun.Input
import Rerun.Proofs.Digest.Order
import Rerun.Proofs.Json.Record
import Rerun.Proofs.Lookup

/-!
# Entries by digest

Entries that were put in one after the other stand in the order of their digests
(`ByDigest.isAscending_ofList`), each with what was put in last (`ByDigest.get?_ofList`). So the
order in which they came does not show (`ByDigest.ofList_congr`).
-/

namespace Rerun.ByDigest

variable {α β : Type}

/-- The digests ascend, so each stands only once. -/
def IsAscending (m : ByDigest α) : Prop := m.Pairwise fun x y => x.1.Before y.1

/-! ## Putting entries in -/

theorem mem_insert {d : Digest} {a : α} {m : ByDigest α} {x : Digest × α} (h : x ∈ insert d a m) :
    x = (d, a) ∨ x ∈ m := by
  induction m with
  | nil => exact .inl (List.mem_singleton.1 h)
  | cons y m ih =>
    obtain ⟨e, b⟩ := y
    unfold insert at h
    split at h
    · exact (List.mem_cons.1 h).imp_right (List.mem_cons_of_mem _)
    · split at h
      · exact List.mem_cons.1 h
      · rcases List.mem_cons.1 h with rfl | h
        · exact .inr List.mem_cons_self
        · exact (ih h).imp_right (List.mem_cons_of_mem _)

theorem IsAscending.insert {m : ByDigest α} (h : m.IsAscending) (d : Digest) (a : α) :
    IsAscending (insert d a m) := by
  induction m with
  | nil => exact List.pairwise_singleton _ _
  | cons x m ih =>
    obtain ⟨e, b⟩ := x
    obtain ⟨hhead, htail⟩ := List.pairwise_cons.1 h
    unfold ByDigest.insert
    by_cases hde : d = e
    · subst hde
      rw [if_pos rfl]
      exact .cons hhead htail
    · rw [if_neg hde]
      by_cases hle : d.le e = true
      · have hbefore := Digest.before_of_le hde hle
        rw [if_pos hle]
        exact .cons (List.forall_mem_cons.2 ⟨hbefore, fun x hx => hbefore.trans (hhead x hx)⟩) h
      · rw [if_neg hle]
        refine .cons (fun x hx => ?_) (ih htail)
        rcases mem_insert hx with rfl | hx
        · exact Digest.before_of_not_le hle
        · exact hhead x hx

theorem ofList_concat (xs : List (Digest × α)) (d : Digest) (a : α) :
    ofList (xs ++ [(d, a)]) = insert d a (ofList xs) := by
  unfold ofList
  rw [List.foldl_append]
  rfl

theorem isAscending_ofList (xs : List (Digest × α)) : (ofList xs).IsAscending := by
  induction xs using List.reverseRecOn with
  | nil => exact List.Pairwise.nil
  | append_singleton xs x ih =>
    rw [ofList_concat]
    exact ih.insert x.1 x.2

/-- Of the entries with one digest, the last one counts. -/
theorem get?_ofList (xs : List (Digest × α)) (d : Digest) :
    (ofList xs).get? d = xs.reverse.lookup d := by
  induction xs using List.reverseRecOn with
  | nil => rfl
  | append_singleton xs x ih =>
    rw [ofList_concat, get?_insert, ih, List.reverse_append, List.reverse_singleton,
      List.singleton_append, Lookup.cons]

/-! ## Ascending entries -/

theorem IsAscending.nodup {m : ByDigest α} (h : m.IsAscending) : (m.map Prod.fst).Nodup :=
  List.pairwise_map.2 (h.imp Digest.Before.ne)

theorem IsAscending.mem_iff {m : ByDigest α} (h : m.IsAscending) {d : Digest} {a : α} :
    (d, a) ∈ m ↔ m.get? d = some a :=
  ⟨Lookup.eq_some_of_mem h.nodup, Lookup.mem_of_eq_some⟩

/-- Ascending entries are told apart by what is found under a digest. -/
theorem IsAscending.ext {m m' : ByDigest α} (h : m.IsAscending) (h' : m'.IsAscending)
    (hget : ∀ d, m.get? d = m'.get? d) : m = m' := by
  have hasymm : Std.Asymm fun x y : Digest × α => x.1.Before y.1 := ⟨fun _ _ => Digest.Before.asymm⟩
  refine List.Pairwise.eq_of_mem_iff h h' fun x => ?_
  rw [h.mem_iff, h'.mem_iff, hget]

/-- Only what was put in last under each digest counts. -/
theorem ofList_congr {xs ys : List (Digest × α)}
    (h : ∀ d, xs.reverse.lookup d = ys.reverse.lookup d) : ofList xs = ofList ys :=
  (isAscending_ofList xs).ext (isAscending_ofList ys) fun d => by
    rw [get?_ofList, get?_ofList, h]

/-- Ascending entries stay as they are when they are put in one after the other. -/
theorem IsAscending.ofList_eq {m : ByDigest α} (h : m.IsAscending) : ofList m = m := by
  refine (isAscending_ofList m).ext h fun d => ?_
  have hrev : (m.reverse.map Prod.fst).Nodup := by
    rw [List.map_reverse]
    exact List.nodup_reverse.2 h.nodup
  rw [get?_ofList]
  refine Option.ext fun a => ?_
  rw [← h.mem_iff, ← List.mem_reverse]
  exact ⟨Lookup.mem_of_eq_some, Lookup.eq_some_of_mem hrev⟩

/-! ## Reading every entry -/

theorem readAll_keys {read : α → Json.Read β} {m : ByDigest α} {m' : ByDigest β}
    (h : m.readAll read = .ok m') : m'.map Prod.fst = m.map Prod.fst := by
  induction m generalizing m' with
  | nil =>
    cases h
    rfl
  | cons x m ih =>
    obtain ⟨d, a⟩ := x
    obtain ⟨b, -, h⟩ := Json.bind_eq_ok.1 h
    obtain ⟨rest, hrest, h⟩ := Json.bind_eq_ok.1 h
    cases h
    rw [List.map_cons, List.map_cons, ih hrest]

theorem IsAscending.readAll {read : α → Json.Read β} {m : ByDigest α} {m' : ByDigest β}
    (hm : m.IsAscending) (h : m.readAll read = .ok m') : m'.IsAscending := by
  have hkeys : (m'.map Prod.fst).Pairwise Digest.Before := by
    rw [readAll_keys h]
    exact List.pairwise_map.2 hm
  exact List.pairwise_map.1 hkeys

theorem readAll_map {read : α → Json.Read β} {write : β → α} (h : ∀ b, read (write b) = .ok b)
    (m : ByDigest β) : ByDigest.readAll read (m.map fun (d, b) => (d, write b)) = .ok m := by
  induction m with
  | nil => rfl
  | cons x m ih =>
    rw [List.map_cons, ByDigest.readAll, h, ih]
    rfl

end Rerun.ByDigest
