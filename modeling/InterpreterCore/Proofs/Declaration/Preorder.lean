import InterpreterCore.Proofs.Declaration.Scope

namespace InterpreterCore

namespace ClassDecl

mutual

/-- The classes below a class in preorder. -/
def descendants : ClassDecl → List ClassDecl
  | ⟨_, _, _, _, classes⟩ => listing classes

/-- Some classes in their order, each followed by the classes below it. -/
def listing : List ClassDecl → List ClassDecl
  | [] => []
  | first :: rest => first :: (descendants first ++ listing rest)

end

theorem listing_eq (decls : List ClassDecl) :
    listing decls = decls.flatMap fun nested => nested :: nested.descendants := by
  induction decls with
  | nil => rfl
  | cons first rest ih => rw [listing, List.flatMap_cons, ih, List.cons_append]

theorem descendants_eq (decl : ClassDecl) :
    decl.descendants = decl.classes.flatMap fun nested => nested :: nested.descendants := by
  obtain ⟨_, _, _, _, classes⟩ := decl
  rw [descendants, listing_eq]

/-- The second class is nested in the first at some depth, and is not the first itself. -/
def Beneath (decl inner : ClassDecl) : Prop := ∃ child ∈ decl.classes, child.Encloses inner

theorem encloses_iff {outer inner : ClassDecl} :
    outer.Encloses inner ↔ inner = outer ∨ outer.Beneath inner := by
  constructor
  · intro hinner
    cases hinner with
    | self => exact .inl rfl
    | nested hmiddle hinner => exact .inr ⟨_, hmiddle, hinner⟩
  · rintro (rfl | ⟨_, hmiddle, hinner⟩)
    · exact .self _
    · exact .nested hmiddle hinner

mutual

/-- The classes below a class are those that are nested in it. -/
theorem mem_descendants {decl inner : ClassDecl} : inner ∈ decl.descendants ↔ decl.Beneath inner := by
  obtain ⟨_, _, _, _, classes⟩ := decl
  rw [descendants]
  exact mem_listing

theorem mem_listing {decls : List ClassDecl} {inner : ClassDecl} :
    inner ∈ listing decls ↔ ∃ child ∈ decls, child.Encloses inner := by
  cases decls with
  | nil =>
    rw [listing]
    simp
  | cons first rest =>
    rw [listing, List.mem_cons, List.mem_append, mem_descendants, mem_listing, ← or_assoc,
      ← encloses_iff]
    simp

end

/-- What is nested in a class is smaller than the class. -/
theorem sizeOf_lt_of_mem {decl child : ClassDecl} (hchild : child ∈ decl.classes) :
    sizeOf child < sizeOf decl := by
  obtain ⟨_, _, _, _, classes⟩ := decl
  have hlt : sizeOf child < sizeOf classes := List.sizeOf_lt_of_mem hchild
  rw [ClassDecl.mk.sizeOf_spec]
  omega

theorem Encloses.sizeOf_le {outer inner : ClassDecl} (hinner : outer.Encloses inner) :
    sizeOf inner ≤ sizeOf outer := by
  induction hinner with
  | self => exact Nat.le_refl _
  | nested hmiddle _ ih => exact Nat.le_trans ih (Nat.le_of_lt (sizeOf_lt_of_mem hmiddle))

theorem Beneath.ne {decl inner : ClassDecl} (hinner : decl.Beneath inner) : inner ≠ decl := by
  rintro rfl
  obtain ⟨_, hchild, henclosed⟩ := hinner
  exact absurd (sizeOf_lt_of_mem hchild) (Nat.not_lt.mpr henclosed.sizeOf_le)

mutual

/-- A search in depth is a search through the classes below in preorder. -/
theorem findBelow?_eq_find? (name : String) (decl : ClassDecl) :
    findBelow? name decl = decl.descendants.find? fun nested => nested.name == name := by
  obtain ⟨_, _, _, _, classes⟩ := decl
  rw [findBelow?, descendants]
  exact findAmong?_eq_find? name classes

theorem findAmong?_eq_find? (name : String) (decls : List ClassDecl) :
    findAmong? name decls = (listing decls).find? fun nested => nested.name == name := by
  cases decls with
  | nil => rw [findAmong?, listing, List.find?_nil]
  | cons first rest =>
    rw [findAmong?, listing, List.find?_cons, List.find?_append, ← findBelow?_eq_find? name first,
      ← findAmong?_eq_find? name rest]
    by_cases hname : first.name = name
    · rw [if_pos hname, beq_iff_eq.mpr hname]
    · rw [if_neg hname, beq_false_of_ne hname]
      cases findBelow? name first <;> rfl

end

/-- The class at a place, which is given by the positions of the classes to go down through. -/
def at? (decl : ClassDecl) : List Nat → Option ClassDecl
  | [] => some decl
  | position :: rest => decl.classes[position]?.bind fun child => child.at? rest

/-- A listing goes through the places below a class in their order: each place comes before those
    under it, and these come before the places of the next class. -/
def InPreorder (decl : ClassDecl) (decls : List ClassDecl) : Prop :=
  ∃ located : List (List Nat × ClassDecl), located.map Prod.snd = decls ∧
    located.Pairwise (fun entry later => entry.1 < later.1) ∧
    ∀ place nested, (place, nested) ∈ located ↔ place ≠ [] ∧ decl.at? place = some nested

/-- A class of the name stands at a place below a class, and none at an earlier place. -/
structure FirstAt (decl : ClassDecl) (name : String) (place : List Nat) (found : ClassDecl) :
    Prop where
  beneath : place ≠ []
  stands : decl.at? place = some found
  named : found.name = name
  first : ∀ earlier, earlier ≠ [] → earlier < place → ∀ other, decl.at? earlier = some other →
    other.name ≠ name

/-- In preorder the first class of a name is the one at the first place. -/
theorem InPreorder.find?_eq_some_iff {decl : ClassDecl} {decls : List ClassDecl}
    (hlisting : decl.InPreorder decls) {name : String} {found : ClassDecl} :
    (decls.find? fun nested => nested.name == name) = some found ↔
      ∃ place, decl.FirstAt name place found := by
  obtain ⟨located, rfl, hsorted, hplaces⟩ := hlisting
  rw [List.find?_map, Option.map_eq_some_iff]
  constructor
  · rintro ⟨⟨place, found⟩, hfound, rfl⟩
    obtain ⟨hname, before, after, hsplit, hbefore⟩ := List.find?_eq_some_iff_append.mp hfound
    subst hsplit
    obtain ⟨hbelow, hstands⟩ := (hplaces place found).mp (by simp)
    refine ⟨place, hbelow, hstands, beq_iff_eq.mp hname, fun earlier hne hlt other hother => ?_⟩
    obtain ⟨_, hlater, _⟩ := List.pairwise_append.mp hsorted
    -- An earlier place cannot be at or after the first one in the listing.
    have hmem : (earlier, other) ∈ before := by
      have hlisted := (hplaces earlier other).mpr ⟨hne, hother⟩
      rw [List.mem_append, List.mem_cons] at hlisted
      rcases hlisted with hmem | hhere | hafter
      · exact hmem
      · cases hhere
        exact absurd hlt (List.lt_irrefl _)
      · exact absurd (List.rel_of_pairwise_cons hlater hafter) (List.lt_asymm hlt)
    simpa using hbefore _ hmem
  · rintro ⟨place, hbelow, hstands, hname, hfirst⟩
    obtain ⟨before, after, rfl⟩ := List.append_of_mem ((hplaces place found).mpr ⟨hbelow, hstands⟩)
    refine ⟨(place, found), List.find?_eq_some_iff_append.mpr ⟨beq_iff_eq.mpr hname, before, after,
      rfl, fun entry hentry => ?_⟩, rfl⟩
    obtain ⟨_, _, hlater⟩ := List.pairwise_append.mp hsorted
    obtain ⟨hne, hother⟩ := (hplaces entry.1 entry.2).mp (List.mem_append_left _ hentry)
    simpa using hfirst entry.1 hne (hlater entry hentry _ (List.mem_cons_self ..)) _ hother

mutual

/-- The classes below a class in preorder, each with its place. -/
def located : ClassDecl → List (List Nat × ClassDecl)
  | ⟨_, _, _, _, classes⟩ => locatedFrom 0 classes

/-- Some classes, of which the first has the given position, and the classes below them. -/
def locatedFrom : Nat → List ClassDecl → List (List Nat × ClassDecl)
  | _, [] => []
  | position, first :: rest =>
    ([position], first) ::
      ((located first).map (Prod.map (position :: ·) id) ++ locatedFrom (position + 1) rest)

end

mutual

theorem map_snd_located (decl : ClassDecl) : decl.located.map Prod.snd = decl.descendants := by
  obtain ⟨_, _, _, _, classes⟩ := decl
  rw [located, descendants]
  exact map_snd_locatedFrom 0 classes

theorem map_snd_locatedFrom (position : Nat) (decls : List ClassDecl) :
    (locatedFrom position decls).map Prod.snd = listing decls := by
  cases decls with
  | nil => rw [locatedFrom, listing, List.map_nil]
  | cons first rest =>
    rw [locatedFrom, listing, List.map_cons, List.map_append, List.map_map,
      map_snd_locatedFrom (position + 1) rest, ← map_snd_located first]
    rfl

end

mutual

/-- Each class below another is located at its places and nowhere else. -/
theorem mem_located {decl : ClassDecl} {place : List Nat} {nested : ClassDecl} :
    (place, nested) ∈ decl.located ↔ place ≠ [] ∧ decl.at? place = some nested := by
  obtain ⟨_, _, _, _, classes⟩ := decl
  rw [located, mem_locatedFrom]
  cases place with
  | nil => simp
  | cons position rest => simp [at?, Option.bind_eq_some_iff]

theorem mem_locatedFrom {position : Nat} {decls : List ClassDecl} {place : List Nat}
    {nested : ClassDecl} :
    (place, nested) ∈ locatedFrom position decls ↔
      ∃ offset rest child, place = (position + offset) :: rest ∧ decls[offset]? = some child ∧
        child.at? rest = some nested := by
  cases decls with
  | nil =>
    rw [locatedFrom]
    simp
  | cons first others =>
    rw [locatedFrom, List.mem_cons, List.mem_append, List.mem_map, mem_locatedFrom]
    constructor
    · rintro (hhere | ⟨⟨inner, _⟩, hinner, hplace⟩ | ⟨offset, rest, child, rfl, hchild, hnested⟩)
      · cases hhere
        exact ⟨0, [], nested, rfl, rfl, rfl⟩
      · cases hplace
        exact ⟨0, inner, first, rfl, rfl, (mem_located.mp hinner).2⟩
      · exact ⟨offset + 1, rest, child, by rw [Nat.add_right_comm, Nat.add_assoc], hchild, hnested⟩
    · rintro ⟨offset, rest, child, rfl, hchild, hnested⟩
      cases offset with
      | zero =>
        cases hchild
        cases rest with
        | nil =>
          cases hnested
          exact .inl rfl
        | cons step rest =>
          exact .inr (.inl ⟨(step :: rest, nested), mem_located.mpr ⟨nofun, hnested⟩, rfl⟩)
      | succ offset =>
        exact .inr (.inr ⟨offset, rest, child, by rw [Nat.add_right_comm, Nat.add_assoc], hchild,
          hnested⟩)

end

mutual

/-- The places of the classes below a class are listed in their order. -/
theorem pairwise_located (decl : ClassDecl) :
    decl.located.Pairwise fun entry later => entry.1 < later.1 := by
  obtain ⟨_, _, _, _, classes⟩ := decl
  rw [located]
  exact pairwise_locatedFrom 0 classes

theorem pairwise_locatedFrom (position : Nat) (decls : List ClassDecl) :
    (locatedFrom position decls).Pairwise fun entry later => entry.1 < later.1 := by
  cases decls with
  | nil =>
    rw [locatedFrom]
    exact .nil
  | cons first rest =>
    -- Whatever comes from the rest has a later position.
    have hrest : ∀ inner : List Nat, ∀ later ∈ locatedFrom (position + 1) rest,
        position :: inner < later.1 := by
      intro inner later hlater
      obtain ⟨offset, _, _, hplace, _⟩ := mem_locatedFrom.mp hlater
      rw [hplace]
      exact .rel (by omega)
    rw [locatedFrom, List.pairwise_cons, List.pairwise_append, List.pairwise_map]
    refine ⟨fun entry hentry => ?_, ?_, pairwise_locatedFrom (position + 1) rest, ?_⟩
    · rcases List.mem_append.mp hentry with hunder | hlater
      · obtain ⟨⟨inner, _⟩, hinner, rfl⟩ := List.mem_map.mp hunder
        obtain ⟨step, rest, rfl⟩ := List.exists_cons_of_ne_nil (mem_located.mp hinner).1
        exact .cons .nil
      · exact hrest [] entry hlater
    · exact (pairwise_located first).imp fun hlt => .cons hlt
    · intro entry hentry later hlater
      obtain ⟨_, _, rfl⟩ := List.mem_map.mp hentry
      exact hrest _ later hlater

end

theorem inPreorder_descendants (decl : ClassDecl) : decl.InPreorder decl.descendants :=
  ⟨decl.located, map_snd_located decl, pairwise_located decl, fun _ _ => mem_located⟩

/-- The descendants of a class are listed class by class, each one before its own descendants. So
    they stand in the order of their places, and every class nested at any depth is among them. -/
structure ListsBelow (decl : ClassDecl) : Prop where
  listed : decl.descendants = decl.classes.flatMap fun nested => nested :: nested.descendants
  ordered : decl.InPreorder decl.descendants
  complete : ∀ inner, inner ∈ decl.descendants ↔ decl.Beneath inner

theorem listsBelow (decl : ClassDecl) : decl.ListsBelow where
  listed := decl.descendants_eq
  ordered := decl.inPreorder_descendants
  complete _ := mem_descendants

/-- What is found under a name below a class is the first of its descendants that bears the name,
    which is the one at the first place, and nothing is found only where none does. The class itself
    is never found. -/
structure AnswersInPreorder (decl : ClassDecl) (name : String) (answer : Option ClassDecl) :
    Prop where
  listed : answer = decl.descendants.find? fun nested => nested.name == name
  first : ∀ found, answer = some found ↔ ∃ place, decl.FirstAt name place found
  missing : answer = none ↔ ∀ inner, decl.Beneath inner → inner.name ≠ name
  other : answer ≠ some decl

theorem answersInPreorder (decl : ClassDecl) (name : String) :
    decl.AnswersInPreorder name (decl.descendant? name) := by
  rw [descendant?, findBelow?_eq_find?]
  refine ⟨rfl, fun found => (inPreorder_descendants decl).find?_eq_some_iff, ?_, fun hself => ?_⟩
  · rw [List.find?_eq_none]
    simp only [mem_descendants, beq_iff_eq, ne_eq]
  · exact (mem_descendants.mp (List.mem_of_find?_eq_some hself)).ne rfl

end ClassDecl

/-- The search in depth is a search in preorder, below any class and so in a whole program below its
    root. Nothing is assumed of how the classes nest or of how often a name occurs. -/
theorem ClassTable.searches_in_preorder :
    (∀ decl : ClassDecl, decl.ListsBelow) ∧
    (∀ (decl : ClassDecl) (name : String), decl.AnswersInPreorder name (decl.descendant? name)) ∧
    ∀ (table : ClassTable) (name : String),
      table.root.AnswersInPreorder name (table.anywhere? name) :=
  ⟨ClassDecl.listsBelow, ClassDecl.answersInPreorder, fun table => table.root.answersInPreorder⟩

-- A class that is nested in the first class comes before one of its name that is further out.
example : ClassDecl.descendant? ⟨"A", none, [], [], [⟨"B", none, [], [],
    [⟨"C", some "B", [], [], []⟩]⟩, ⟨"C", none, [], [], []⟩]⟩ "C" =
    some ⟨"C", some "B", [], [], []⟩ := rfl

end InterpreterCore
