import Rerun.Proofs.Json.Tree

/-!
# Values in trees

Which trees readers accept, said without the order in which they read. A record is read from an
object that holds every field just once, or an array of all fields in their order
(`Form.read_eq_ok_iff`). It is then that of the fields one by one (`Form.fill`).
-/

namespace Rerun.Json

/-- Reading in two steps succeeds if both do. -/
theorem bind_eq_ok {α β : Type} {r : Read α} {f : α → Read β} {b : β} :
    (r >>= f) = .ok b ↔ ∃ a, r = .ok a ∧ f a = .ok b := by
  cases r with
  | error c => simp [bind, Except.bind]
  | ok a => simp [bind, Except.bind]

theorem Ending.check_eq_ok {ending : Ending} {u : Unit} :
    ending.check = .ok u ↔ ending = .closed := by
  cases ending <;> simp [check]

/-! ## Numbers, texts and names -/

/-- A tree is a natural number. -/
def Node.IsNatural (x : UInt64) (n : Node) : Prop := n = .number (.natural x)

/-- The text that a tree is. -/
def Node.text? : Node → Option String
  | .string pieces => pieceText? pieces
  | _ => none

/-- A tree gives a name, alone or as the only key of an object, with null behind it. -/
inductive Node.Names (name : String) : Node → Prop where
  | text {pieces : List Piece} (h : pieceText? pieces = some name) : Names name (.string pieces)
  | key {pieces : List Piece} (h : pieceText? pieces = some name) :
      Names name (.object [(pieces, .null)] .closed)

theorem readNatural_eq_ok {type : String} {n : Node} {x : UInt64} :
    readNatural type n = .ok x ↔ n.IsNatural x := by
  unfold Node.IsNatural
  constructor
  · intro h
    unfold readNatural at h
    split at h <;> cases h
    rfl
  · rintro rfl
    rfl

theorem readText_eq_ok {type : String} {n : Node} {s : String} :
    readText type n = .ok s ↔ n.text? = some s := by
  cases n with
  | string pieces =>
    rw [readText, Node.text?]
    cases pieceText? pieces <;> simp
  | _ => simp [readText, Node.text?]

theorem readChoice_eq_ok {α : Type} {choices : List (String × α)} {n : Node} {a : α} :
    readChoice choices n = .ok a ↔ ∃ name, choose choices name = .ok a ∧ n.Names name := by
  constructor
  · intro h
    unfold readChoice at h
    split at h
    · split at h
      · rename_i name hname
        exact ⟨name, h, .text hname⟩
      · cases h
    · rename_i pieces x more ending
      split at h
      · rename_i name hname
        obtain ⟨b, hb, h⟩ := bind_eq_ok.1 h
        dsimp only at h
        split at h
        · obtain ⟨_, hclosed, h⟩ := bind_eq_ok.1 h
          obtain rfl := Ending.check_eq_ok.1 hclosed
          split at h
          · rename_i hmore
            cases h
            obtain rfl := List.isEmpty_iff.1 hmore
            exact ⟨name, hb, .key hname⟩
          · cases h
        · cases h
      · cases h
    · cases h
  · rintro ⟨name, hchoose, hnames⟩
    cases hnames with
    | text hname =>
      rw [readChoice, hname]
      exact hchoose
    | key hname =>
      rw [readChoice, hname]
      exact bind_eq_ok.2 ⟨a, hchoose, rfl⟩

/-! ## What holds values under names -/

/-- The values that stand under a name, in the order of the document. -/
def valuesAt (name : String) (members : List (List Piece × Node)) : List Node :=
  members.filterMap fun (key, x) => if pieceText? key = some name then some x else none

/-- Members with texts for keys; those whose keys are not among the names are JSON. -/
def Known (names : List String) (members : List (List Piece × Node)) : Prop :=
  ∀ m ∈ members, ∃ name, pieceText? m.1 = some name ∧ (name ∈ names ∨ m.2.isWhole = true)

/-- A tree holds values under some names: it is an object in which every name stands once, or an
array of the values in the order of the names. What else stands in the object is left alone. -/
inductive Node.Holds (names : List String) (values : List Node) : Node → Prop where
  | object {members : List (List Piece × Node)} (known : Known names members)
      (once : (names.map fun name => valuesAt name members) = values.map fun x => [x]) :
      Holds names values (.object members .closed)
  | array (all : values.length = names.length) : Holds names values (.array values .closed)

theorem Node.Holds.length_eq {names : List String} {values : List Node} {n : Node}
    (h : n.Holds names values) : values.length = names.length := by
  cases h with
  | object known once => simpa using (congrArg List.length once).symm
  | array all => exact all

theorem valuesAt_cons (name : String) (key : List Piece) (x : Node)
    (members : List (List Piece × Node)) :
    valuesAt name ((key, x) :: members) =
      if pieceText? key = some name then x :: valuesAt name members
      else valuesAt name members := by
  unfold valuesAt
  rw [List.filterMap_cons]
  split <;> simp_all

theorem Known.cons_iff {names : List String} {key : List Piece} {x : Node}
    {members : List (List Piece × Node)} :
    Known names ((key, x) :: members) ↔
      (∃ name, pieceText? key = some name ∧ (name ∈ names ∨ x.isWhole = true)) ∧
        Known names members := by
  unfold Known
  rw [List.forall_mem_cons]

/-! ## Fields one by one -/

/-- It does not matter which of two fields is read first. -/
def Field.Independent {α : Type} (f g : Field α) : Prop :=
  ∀ x y a c, (∃ b, f.read x a = .ok b ∧ g.read y b = .ok c) ↔
    ∃ b, g.read y a = .ok b ∧ f.read x b = .ok c

/-- Fields that are read without a look at the record are independent if their parts of it are. -/
theorem Field.Independent.of_set {α β γ : Type} {f g : Field α} {readF : Node → Read β}
    {readG : Node → Read γ} {setF : β → α → α} {setG : γ → α → α}
    (hf : ∀ x a, f.read x a = do return setF (← readF x) a)
    (hg : ∀ x a, g.read x a = do return setG (← readG x) a)
    (hset : ∀ u v a, setG v (setF u a) = setF u (setG v a)) : f.Independent g := by
  intro x y a c
  simp only [hf, hg, bind_eq_ok, pure, Except.pure, Except.ok.injEq]
  constructor
  · rintro ⟨_, ⟨u, hu, rfl⟩, v, hv, rfl⟩
    exact ⟨_, ⟨v, hv, rfl⟩, u, hu, (hset u v a).symm⟩
  · rintro ⟨_, ⟨v, hv, rfl⟩, u, hu, rfl⟩
    exact ⟨_, ⟨u, hu, rfl⟩, v, hv, hset u v a⟩

namespace Form

variable {α : Type}

/-- Reads a value for each of some fields into the record. -/
def fill : List (Field α) → List Node → α → Read α
  | field :: fields, x :: xs, a => do fill fields xs (← field.read x a)
  | _, _, a => .ok a

/-- A field that is independent of those in front of it may be read first. -/
theorem fill_append_cons {f : Field α} {fs gs : List (Field α)}
    (h : ∀ g ∈ fs, g.Independent f) {xs ys : List Node} (hl : xs.length = fs.length) (x : Node)
    (a b : α) :
    fill (fs ++ f :: gs) (xs ++ x :: ys) a = .ok b ↔
      ∃ c, f.read x a = .ok c ∧ fill (fs ++ gs) (xs ++ ys) c = .ok b := by
  induction fs generalizing xs a with
  | nil =>
    cases xs with
    | cons => cases hl
    | nil => exact bind_eq_ok
  | cons g fs ih =>
    cases xs with
    | nil => cases hl
    | cons y xs =>
      have hrest := ih (fun g hg => h g (List.mem_cons_of_mem _ hg)) (Nat.succ.inj hl)
      have hswap := h g List.mem_cons_self y x a
      simp only [List.cons_append, fill, bind_eq_ok, hrest]
      constructor
      · rintro ⟨d, hd, c, hc, hb⟩
        obtain ⟨e, he, hec⟩ := (hswap c).1 ⟨d, hd, hc⟩
        exact ⟨e, he, c, hec, hb⟩
      · rintro ⟨e, he, c, hec, hb⟩
        obtain ⟨d, hd, hc⟩ := (hswap c).2 ⟨e, he, hec⟩
        exact ⟨d, hd, c, hc, hb⟩

/-- A record whose fields have to be there, each under a name of its own and read on its own. -/
structure IsPlain (form : Form α) : Prop where
  strict : form.lenient = false
  distinct : (form.fields.map (·.name)).Nodup
  independent : form.fields.Pairwise Field.Independent

/-! ## Objects -/

/-- The fields that were not met yet. -/
def rest (form : Form α) (seen : List String) : List (Field α) :=
  form.fields.filter fun field => field.name ∉ seen

theorem missing?_eq_none {form : Form α} (h : form.lenient = false) {seen : List String} :
    form.missing? seen = none ↔ form.rest seen = [] := by
  unfold missing? rest
  rw [h, if_neg (by simp), List.find?_eq_none, List.filter_eq_nil_iff]
  simp

/-- Any two of the rest have different names and are independent. -/
theorem IsPlain.rest_pairwise {form : Form α} (h : form.IsPlain) (seen : List String) :
    (form.rest seen).Pairwise fun f g => f.name ≠ g.name ∧ f.Independent g :=
  ((List.pairwise_map.1 h.distinct).and h.independent).sublist List.filter_sublist

/-- A field that is met is no longer among the rest. -/
theorem rest_cons {form : Form α} {seen : List String} {field : Field α} {fs gs : List (Field α)}
    (hrest : form.rest seen = fs ++ field :: gs) (hfs : ∀ f ∈ fs, f.name ≠ field.name)
    (hgs : ∀ f ∈ gs, f.name ≠ field.name) : form.rest (field.name :: seen) = fs ++ gs := by
  have hfilter : form.rest (field.name :: seen) =
      (form.rest seen).filter fun f => f.name ≠ field.name := by
    unfold rest
    rw [List.filter_filter]
    refine List.filter_congr fun f _ => ?_
    simp
  rw [hfilter, hrest, List.filter_append, List.filter_cons_of_neg (by simp),
    List.filter_eq_self.2 fun f hf => by simpa using hfs f hf,
    List.filter_eq_self.2 fun f hf => by simpa using hgs f hf]

/-- What members bring into a record is what the fields bring that were not met yet: each stands
there once, and what was met does not stand there again. -/
def Brings (form : Form α) (seen : List String) (members : List (List Piece × Node)) (a b : α) :
    Prop :=
  Known (form.fields.map (·.name)) members ∧ (∀ name ∈ seen, valuesAt name members = []) ∧
    ∃ xs : List Node, ((form.rest seen).map fun field => valuesAt field.name members) =
        xs.map (fun x => [x]) ∧ fill (form.rest seen) xs a = .ok b

section

variable {form : Form α} {seen : List String} {key : List Piece} {x : Node}
  {members : List (List Piece × Node)} {a b : α}

theorem brings_nil : form.Brings seen [] a b ↔ form.rest seen = [] ∧ a = b := by
  constructor
  · rintro ⟨-, -, xs, hxs, hfill⟩
    cases hrest : form.rest seen with
    | nil =>
      rw [hrest] at hfill
      cases hfill
      exact ⟨rfl, rfl⟩
    | cons field fields =>
      rw [hrest] at hxs
      cases xs <;> cases hxs
  · rintro ⟨hrest, rfl⟩
    refine ⟨by simp [Known], fun _ _ => rfl, [], ?_, ?_⟩ <;> rw [hrest] <;> rfl

theorem brings_unknown {name : String} (hkey : pieceText? key = some name)
    (hname : name ∉ form.fields.map (·.name))
    (hseen : ∀ name ∈ seen, name ∈ form.fields.map (·.name)) :
    form.Brings seen ((key, x) :: members) a b ↔
      x.isWhole = true ∧ form.Brings seen members a b := by
  have hother : ∀ other ∈ form.fields.map (·.name),
      valuesAt other ((key, x) :: members) = valuesAt other members := by
    intro other hin
    rw [valuesAt_cons, hkey, if_neg]
    rintro ⟨⟩
    exact hname hin
  have hmet : (∀ name ∈ seen, valuesAt name ((key, x) :: members) = []) ↔
      ∀ name ∈ seen, valuesAt name members = [] :=
    forall₂_congr fun name hin => by rw [hother name (hseen name hin)]
  have hrest : ((form.rest seen).map fun field => valuesAt field.name ((key, x) :: members)) =
      (form.rest seen).map fun field => valuesAt field.name members :=
    List.map_congr_left fun field hin =>
      hother _ (List.mem_map_of_mem (List.mem_filter.1 hin).1)
  have hknown : (∃ other, some name = some other ∧
      (other ∈ form.fields.map (·.name) ∨ x.isWhole = true)) ↔ x.isWhole = true := by
    simp only [Option.some.injEq, exists_eq_left', hname, false_or]
  unfold Brings
  rw [Known.cons_iff, hmet, hrest, hkey, hknown, and_assoc]

theorem not_brings_met {name : String} (hkey : pieceText? key = some name) (hmet : name ∈ seen) :
    ¬ form.Brings seen ((key, x) :: members) a b := by
  rintro ⟨-, hnone, -⟩
  have hvalues := hnone name hmet
  rw [valuesAt_cons, hkey, if_pos rfl] at hvalues
  cases hvalues

theorem brings_new (h : form.IsPlain) {field : Field α} (hfield : field ∈ form.fields)
    (hkey : pieceText? key = some field.name) (hmet : field.name ∉ seen) :
    form.Brings seen ((key, x) :: members) a b ↔
      ∃ c, field.read x a = .ok c ∧ form.Brings (field.name :: seen) members c b := by
  have hin : field ∈ form.rest seen := List.mem_filter.2 ⟨hfield, by simpa using hmet⟩
  obtain ⟨fs, gs, hsplit⟩ := List.append_of_mem hin
  have hpairs := h.rest_pairwise seen
  rw [hsplit, List.pairwise_append, List.pairwise_cons] at hpairs
  obtain ⟨-, ⟨hbehind, -⟩, hbefore⟩ := hpairs
  have hfs : ∀ f ∈ fs, f.name ≠ field.name := fun f hf =>
    (hbefore f hf field List.mem_cons_self).1
  have hgs : ∀ f ∈ gs, f.name ≠ field.name := fun f hf => (hbehind f hf).1.symm
  have hread : ∀ {xs ys : List Node}, xs.length = fs.length →
      (fill (fs ++ field :: gs) (xs ++ x :: ys) a = .ok b ↔
        ∃ c, field.read x a = .ok c ∧ fill (fs ++ gs) (xs ++ ys) c = .ok b) := fun hl =>
    fill_append_cons (fun f hf => (hbefore f hf field List.mem_cons_self).2) hl x a b
  have hother : ∀ name ≠ field.name,
      valuesAt name ((key, x) :: members) = valuesAt name members := by
    intro name hne
    rw [valuesAt_cons, hkey, if_neg]
    rintro ⟨⟩
    exact hne rfl
  have hself : valuesAt field.name ((key, x) :: members) = x :: valuesAt field.name members := by
    rw [valuesAt_cons, hkey, if_pos rfl]
  have hnone : (∀ name ∈ seen, valuesAt name ((key, x) :: members) = []) ↔
      ∀ name ∈ seen, valuesAt name members = [] :=
    forall₂_congr fun name hin => by rw [hother name fun hname => hmet (hname ▸ hin)]
  have hvalues : ((fs ++ field :: gs).map fun f => valuesAt f.name ((key, x) :: members)) =
      (fs.map fun f => valuesAt f.name members) ++ (x :: valuesAt field.name members) ::
        gs.map fun f => valuesAt f.name members := by
    rw [List.map_append, List.map_cons, hself,
      List.map_congr_left fun f hf => hother f.name (hfs f hf),
      List.map_congr_left fun f hf => hother f.name (hgs f hf)]
  unfold Brings
  rw [rest_cons hsplit hfs hgs, hsplit, Known.cons_iff, hnone, hvalues, hkey]
  constructor
  · rintro ⟨⟨-, hknown⟩, hunmet, xs, hxs, hfill⟩
    obtain ⟨ys, xs', rfl, hys, hxs'⟩ := List.map_eq_append_iff.1 hxs.symm
    obtain ⟨y, zs, rfl, hy, hzs⟩ := List.map_eq_cons_iff.1 hxs'
    obtain ⟨rfl, hlast⟩ := List.cons.inj hy
    obtain ⟨c, hc, hb⟩ := (hread (by simpa using congrArg List.length hys)).1 hfill
    refine ⟨c, hc, hknown, List.forall_mem_cons.2 ⟨hlast.symm, hunmet⟩, ys ++ zs, ?_, hb⟩
    rw [List.map_append, List.map_append, hys, hzs]
  · rintro ⟨c, hc, hknown, hunmet, xs, hxs, hfill⟩
    rw [List.map_append] at hxs
    obtain ⟨ys, zs, rfl, hys, hzs⟩ := List.map_eq_append_iff.1 hxs.symm
    obtain ⟨hlast, hunmet'⟩ := List.forall_mem_cons.1 hunmet
    refine ⟨⟨⟨field.name, rfl, .inl (List.mem_map_of_mem hfield)⟩, hknown⟩, hunmet', ys ++ x :: zs,
      ?_, (hread (by simpa using congrArg List.length hys)).2 ⟨c, hc, hfill⟩⟩
    rw [List.map_append, List.map_cons, hys, hzs, hlast]

end

/-- Reading members is taking over what they bring. -/
theorem readMembers_eq_ok {form : Form α} (h : form.IsPlain) {seen : List String}
    (hseen : ∀ name ∈ seen, name ∈ form.fields.map (·.name)) {a b : α}
    {members : List (List Piece × Node)} :
    (∃ met, form.readMembers seen a members = .ok (met, b) ∧ form.missing? met = none) ↔
      form.Brings seen members a b := by
  induction members generalizing seen a with
  | nil =>
    rw [readMembers, brings_nil, ← missing?_eq_none h.strict]
    constructor
    · rintro ⟨met, hmet, hmissing⟩
      cases hmet
      exact ⟨hmissing, rfl⟩
    · rintro ⟨hmissing, rfl⟩
      exact ⟨seen, rfl, hmissing⟩
  | cons m members ih =>
    obtain ⟨key, x⟩ := m
    rw [readMembers]
    cases hkey : pieceText? key with
    | none =>
      have hno : ¬ form.Brings seen ((key, x) :: members) a b := by
        rintro ⟨hknown, -⟩
        obtain ⟨⟨name, hname, -⟩, -⟩ := Known.cons_iff.1 hknown
        rw [hkey] at hname
        cases hname
      simp [hno]
    | some name =>
      dsimp only
      cases hfind : form.fields.find? (·.name == name) with
      | none =>
        have hunknown : name ∉ form.fields.map (·.name) := by
          rw [List.find?_eq_none] at hfind
          rintro hin
          obtain ⟨field, hfield, hname⟩ := List.mem_map.1 hin
          exact hfind field hfield (by simpa using hname)
        rw [brings_unknown hkey hunknown hseen, ← ih hseen]
        cases hx : x.isWhole <;> simp
      | some field =>
        obtain rfl : field.name = name := by simpa using List.find?_some hfind
        have hfield := List.mem_of_find?_eq_some hfind
        by_cases hmet : field.name ∈ seen
        · simp [hmet, not_brings_met hkey hmet]
        · rw [brings_new h hfield hkey hmet]
          have hseen' : ∀ name ∈ field.name :: seen, name ∈ form.fields.map (·.name) :=
            List.forall_mem_cons.2 ⟨List.mem_map_of_mem hfield, hseen⟩
          simp only [hmet, List.contains_eq_mem, decide_false, Bool.false_eq_true, if_false,
            bind_eq_ok]
          constructor
          · rintro ⟨met, ⟨c, hc, hmembers⟩, hmissing⟩
            exact ⟨c, hc, (ih hseen').1 ⟨met, hmembers, hmissing⟩⟩
          · rintro ⟨c, hc, hbrings⟩
            obtain ⟨met, hmembers, hmissing⟩ := (ih hseen').2 hbrings
            exact ⟨met, ⟨c, hc, hmembers⟩, hmissing⟩

/-! ## Arrays -/

/-- Positions are read into the fields one by one, if there is one for each. -/
theorem readPositions_eq_ok {form : Form α} (h : form.lenient = false) (done : Nat)
    {fields : List (Field α)} {items : List Node} {ending : Ending} {a b : α} :
    form.readPositions ending done a fields items = .ok b ↔
      ending = .closed ∧ items.length = fields.length ∧ fill fields items a = .ok b := by
  induction fields generalizing items done a with
  | nil =>
    cases items with
    | nil => simp [readPositions, fill, bind_eq_ok, Ending.check_eq_ok, pure, Except.pure]
    | cons x xs => simp [readPositions]
  | cons field fields ih =>
    cases items with
    | nil => simp [readPositions, h, bind_eq_ok]
    | cons x xs =>
      simp only [readPositions, fill, bind_eq_ok, ih, List.length_cons, Nat.succ_inj]
      constructor
      · rintro ⟨c, hc, hclosed, hl, hfill⟩
        exact ⟨hclosed, hl, c, hc, hfill⟩
      · rintro ⟨hclosed, hl, c, hc, hfill⟩
        exact ⟨c, hc, hclosed, hl, hfill⟩

/-! ## Records -/

theorem read_object_eq_ok {form : Form α} (h : form.IsPlain)
    {members : List (List Piece × Node)} {ending : Ending} {a : α} :
    form.read (.object members ending) = .ok a ↔
      ending = .closed ∧ form.Brings [] members form.blank a := by
  rw [← readMembers_eq_ok h (by simp), read, bind_eq_ok]
  constructor
  · rintro ⟨⟨met, b⟩, hread, hend⟩
    obtain ⟨_, hclosed, hmissing⟩ := bind_eq_ok.1 hend
    split at hmissing
    · cases hmissing
    · rename_i hnone
      cases hmissing
      exact ⟨Ending.check_eq_ok.1 hclosed, met, hread, hnone⟩
  · rintro ⟨rfl, met, hread, hmissing⟩
    refine ⟨(met, a), hread, bind_eq_ok.2 ⟨(), rfl, ?_⟩⟩
    rw [hmissing]
    rfl

/-- A record is read from what holds its fields. -/
theorem read_eq_ok_iff {form : Form α} (h : form.IsPlain) {n : Node} {a : α} :
    form.read n = .ok a ↔ ∃ xs, n.Holds (form.fields.map (·.name)) xs ∧
      fill form.fields xs form.blank = .ok a := by
  cases n with
  | object members ending =>
    have hrest : form.rest [] = form.fields := List.filter_eq_self.2 fun f _ => by simp
    rw [read_object_eq_ok h]
    unfold Brings
    rw [hrest]
    constructor
    · rintro ⟨rfl, hknown, -, xs, hxs, hfill⟩
      exact ⟨xs, .object hknown (by rwa [List.map_map]), hfill⟩
    · rintro ⟨xs, hholds, hfill⟩
      cases hholds with
      | object hknown honce =>
        exact ⟨rfl, hknown, by simp, xs, by rwa [List.map_map] at honce, hfill⟩
  | array items ending =>
    rw [read, readPositions_eq_ok h.strict]
    constructor
    · rintro ⟨rfl, hl, hfill⟩
      exact ⟨items, .array (by rw [hl, List.length_map]), hfill⟩
    · rintro ⟨xs, hholds, hfill⟩
      cases hholds with
      | array hl => exact ⟨rfl, by rw [hl, List.length_map], hfill⟩
  | fault | null | bool | number | string =>
    constructor
    · intro hread
      cases hread
    · rintro ⟨xs, hholds, -⟩
      cases hholds

end Form

end Rerun.Json
