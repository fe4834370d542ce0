import InterpreterCore.Proofs.Declaration.Lineage
import Mathlib.Data.List.Nodup
import Mathlib.Data.List.Perm.Subperm

namespace InterpreterCore

namespace ClassTable

variable {table : ClassTable}

/-- The class that is so many steps up from a class. -/
def forebear? (table : ClassTable) : Nat → ClassDecl → Option ClassDecl
  | 0, decl => some decl
  | steps + 1, decl => (table.parent? decl).bind (table.forebear? steps)

/-- The class at a place of the superclass chain of a named class, which stands at place zero
    itself. A chain that loops has a class at every place. -/
def onChain? (table : ClassTable) (name : String) (place : Nat) : Option ClassDecl :=
  (table.anywhere? name).bind (table.forebear? place)

theorem forebear?_add (first second : Nat) (decl : ClassDecl) :
    table.forebear? (first + second) decl =
      (table.forebear? first decl).bind (table.forebear? second) := by
  induction first generalizing decl with
  | zero => rw [Nat.zero_add, forebear?, Option.bind_some]
  | succ first ih =>
    rw [Nat.succ_add, forebear?, forebear?]
    cases table.parent? decl with
    | none => rfl
    | some parent => exact ih parent

theorem onChain?_add (name : String) (place steps : Nat) :
    table.onChain? name (place + steps) =
      (table.onChain? name place).bind (table.forebear? steps) := by
  rw [onChain?, onChain?]
  cases table.anywhere? name with
  | none => rfl
  | some decl => exact forebear?_add place steps decl

/-- The chain of a superclass is the chain of the class, one place on. -/
theorem onChain?_of_parent {name parentName : String} {decl : ClassDecl}
    (hdecl : table.anywhere? name = some decl) (hparent : decl.superclass = some parentName)
    (place : Nat) : table.onChain? parentName place = table.onChain? name (place + 1) := by
  rw [onChain?, onChain?, hdecl, Option.bind_some, forebear?, parent?, hparent, Option.bind_some]

/-- A walk lists the chain, as far as it goes. -/
theorem getElem?_lineage (count place : Nat) (decl : ClassDecl) :
    (table.lineage count decl)[place]? =
      if place < count then table.forebear? place decl else none := by
  induction count generalizing place decl with
  | zero => rfl
  | succ count ih =>
    rw [lineage]
    cases place with
    | zero => rfl
    | succ place =>
      rw [List.getElem?_cons_succ, forebear?]
      cases table.parent? decl with
      | none => simp
      | some parent =>
        rw [ih, Option.bind_some]
        simp only [Nat.add_lt_add_iff_right]

theorem getElem?_ancestry (name : String) (place : Nat) :
    (table.ancestry name)[place]? =
      if place < lineageLimit then table.onChain? name place else none := by
  rw [ancestry, onChain?]
  cases table.anywhere? name with
  | none => simp
  | some decl => exact getElem?_lineage ..

/-- The first class of a chain that declares a method, at a place of the chain. -/
structure DeclaresFirst (table : ClassTable) (name method : String) (place : Nat)
    (found : FunctionDecl) : Prop where
  declares : (table.onChain? name place).bind (·.method? method) = some found
  first : ∀ earlier, earlier < place → ∀ decl, table.onChain? name earlier = some decl →
    decl.method? method = none

/-- No two classes of a chain are the first to declare a method. -/
theorem DeclaresFirst.unique {name method : String} {place other : Nat}
    {found otherFound : FunctionDecl} (hfirst : table.DeclaresFirst name method place found)
    (hother : table.DeclaresFirst name method other otherFound) : found = otherFound := by
  have hnot {early late : Nat} {earlyFound lateFound : FunctionDecl}
      (hearly : table.DeclaresFirst name method early earlyFound)
      (hlate : table.DeclaresFirst name method late lateFound) : ¬ early < late := by
    intro hlt
    obtain ⟨decl, hdecl, hmethod⟩ := Option.bind_eq_some_iff.mp hearly.declares
    rw [hlate.first early hlt decl hdecl] at hmethod
    cases hmethod
  obtain rfl : place = other := by
    have hle := hnot hfirst hother
    have hge := hnot hother hfirst
    omega
  exact Option.some.inj (hfirst.declares.symm.trans hother.declares)

/-- A class inherits the method that is declared first on its chain, if that is among the places
    that a walk visits. -/
theorem methodOf?_eq_some_iff {name method : String} {found : FunctionDecl} :
    table.methodOf? name method = some found ↔
      ∃ place, place < lineageLimit ∧ table.DeclaresFirst name method place found := by
  constructor
  · intro hfound
    obtain ⟨before, decl, rest, hsplit, hdeclares, hbefore⟩ :=
      List.findSome?_eq_some_iff.mp hfound
    have hhere := @getElem?_ancestry table name before.length
    rw [hsplit, List.getElem?_append_right (Nat.le_refl _), Nat.sub_self,
      List.getElem?_cons_zero] at hhere
    split at hhere
    · rename_i hlimit
      refine ⟨before.length, hlimit, by rw [← hhere]; exact hdeclares, ?_⟩
      intro earlier hlt other hother
      have hthere := @getElem?_ancestry table name earlier
      rw [hsplit, List.getElem?_append_left hlt, if_pos (Nat.lt_trans hlt hlimit), hother] at hthere
      exact hbefore other (List.mem_of_getElem? hthere)
    · cases hhere
  · rintro ⟨place, hlimit, hdeclares, hfirst⟩
    have hwalk {earlier : Nat} (hle : earlier ≤ place) :
        (table.ancestry name)[earlier]? = table.onChain? name earlier := by
      rw [getElem?_ancestry, if_pos (Nat.lt_of_le_of_lt hle hlimit)]
    obtain ⟨decl, hdecl, hmethod⟩ := Option.bind_eq_some_iff.mp hdeclares
    obtain ⟨hbound, hentry⟩ := List.getElem?_eq_some_iff.mp ((hwalk (Nat.le_refl _)).trans hdecl)
    refine List.findSome?_eq_some_iff.mpr
      ⟨(table.ancestry name).take place, decl, (table.ancestry name).drop (place + 1), ?_, hmethod,
        fun other hother => ?_⟩
    · rw [← hentry, List.getElem_cons_drop, List.take_append_drop]
    · obtain ⟨earlier, hearlier⟩ := List.mem_iff_getElem?.mp hother
      rw [List.getElem?_take] at hearlier
      split at hearlier
      · rename_i hlt
        exact hfirst earlier hlt other ((hwalk (Nat.le_of_lt hlt)).symm.trans hearlier)
      · cases hearlier

/-- A class implements the interfaces that are listed at the places that a walk visits. -/
theorem implements_iff {name interface : String} :
    table.implements name interface = true ↔
      ∃ place decl, place < lineageLimit ∧ table.onChain? name place = some decl ∧
        decl.lists interface = true := by
  rw [implements, List.any_eq_true]
  simp only [List.mem_iff_getElem?, getElem?_ancestry]
  constructor
  · rintro ⟨decl, ⟨place, hplace⟩, hlists⟩
    split at hplace
    · rename_i hlimit
      exact ⟨place, decl, hlimit, hplace, hlists⟩
    · cases hplace
  · rintro ⟨place, decl, hlimit, hplace, hlists⟩
    exact ⟨decl, ⟨place, by rw [if_pos hlimit, hplace]⟩, hlists⟩

/-- All classes of a chain are among some classes. -/
def ChainWithin (table : ClassTable) (name : String) (visited : List ClassDecl) : Prop :=
  ∀ place decl, table.onChain? name place = some decl → decl ∈ visited

/-- A chain that is longer than the classes on it are many comes back to one of them. -/
theorem exists_return {name : String} {visited : List ClassDecl}
    (hwithin : table.ChainWithin name visited)
    (hlong : (table.onChain? name visited.length).isSome) :
    ∃ first second, first < second ∧ second ≤ visited.length ∧
      table.onChain? name first = table.onChain? name second := by
  have hearlier : ∀ place, place ≤ visited.length → (table.onChain? name place).isSome := by
    intro place hle
    rw [← Nat.add_sub_cancel' hle, onChain?_add] at hlong
    exact Option.isSome_of_isSome_bind hlong
  have hmember : (List.range (visited.length + 1)).map (table.onChain? name) ⊆
      visited.map some := by
    intro entry hentry
    obtain ⟨place, hplace, rfl⟩ := List.mem_map.mp hentry
    obtain ⟨decl, hdecl⟩ := Option.isSome_iff_exists.mp
      (hearlier place (Nat.le_of_lt_succ (List.mem_range.mp hplace)))
    rw [hdecl]
    exact List.mem_map_of_mem (hwithin place decl hdecl)
  have hrepeats : ¬ ((List.range (visited.length + 1)).map (table.onChain? name)).Nodup := by
    intro hnodup
    have hcount := (hnodup.subperm hmember).length_le
    rw [List.length_map, List.length_map, List.length_range] at hcount
    omega
  rw [List.nodup_iff_getElem?_ne_getElem?] at hrepeats
  push Not at hrepeats
  obtain ⟨first, second, hlt, hbound, hsame⟩ := hrepeats
  rw [List.length_map, List.length_range] at hbound
  rw [List.getElem?_map, List.getElem?_map, List.getElem?_range (by omega),
    List.getElem?_range hbound] at hsame
  exact ⟨first, second, hlt, Nat.le_of_lt_succ hbound, Option.some.inj hsame⟩

/-- A class that stands anywhere on a chain also stands at a place below the number of classes on
    it: from a class to which the chain returns, it goes on as it did the first time. -/
theorem exists_place_lt {name : String} {visited : List ClassDecl}
    (hwithin : table.ChainWithin name visited) (place : Nat) {decl : ClassDecl}
    (hdecl : table.onChain? name place = some decl) :
    ∃ early, early < visited.length ∧ early ≤ place ∧
      table.onChain? name early = some decl := by
  induction place using Nat.strongRecOn with
  | _ place ih =>
    by_cases hshort : place < visited.length
    · exact ⟨place, hshort, Nat.le_refl _, hdecl⟩
    · have hlong : (table.onChain? name visited.length).isSome := by
        have hreach : (table.onChain? name (visited.length + (place - visited.length))).isSome := by
          rw [Nat.add_sub_cancel' (Nat.le_of_not_lt hshort), hdecl]
          rfl
        rw [onChain?_add] at hreach
        exact Option.isSome_of_isSome_bind hreach
      obtain ⟨first, second, hlt, hbound, hsame⟩ := exists_return hwithin hlong
      have hback : table.onChain? name (first + (place - second)) = some decl := by
        rw [onChain?_add, hsame, ← onChain?_add, Nat.add_sub_cancel' (by omega), hdecl]
      obtain ⟨early, hearly, hle, hfound⟩ := ih _ (by omega) hback
      exact ⟨early, hearly, by omega, hfound⟩

/-- Where the classes of a chain are no more than a walk visits, the walk misses none of them. -/
theorem place_lt_of_declaresFirst {name method : String} {visited : List ClassDecl}
    (hwithin : table.ChainWithin name visited) (hfew : visited.length ≤ lineageLimit) {place : Nat}
    {found : FunctionDecl} (hfirst : table.DeclaresFirst name method place found) :
    place < lineageLimit := by
  obtain ⟨decl, hdecl, hmethod⟩ := Option.bind_eq_some_iff.mp hfirst.declares
  obtain ⟨early, hearly, hle, hfound⟩ := exists_place_lt hwithin place hdecl
  obtain hlt | rfl := Nat.lt_or_eq_of_le hle
  · rw [hfirst.first early hlt decl hfound] at hmethod
    cases hmethod
  · exact Nat.lt_of_lt_of_le hearly hfew

/-- If some class of a chain declares a method, one of them is the first. -/
theorem exists_declaresFirst {name method : String} {place : Nat} {decl : ClassDecl}
    (hdecl : table.onChain? name place = some decl) {found : FunctionDecl}
    (hmethod : decl.method? method = some found) :
    ∃ first other, table.DeclaresFirst name method first other := by
  induction place using Nat.strongRecOn generalizing decl found with
  | _ place ih =>
    by_cases hearlier : ∀ earlier, earlier < place → ∀ other,
        table.onChain? name earlier = some other → other.method? method = none
    · exact ⟨place, found, by rw [hdecl]; exact hmethod, hearlier⟩
    · push Not at hearlier
      obtain ⟨earlier, hlt, other, hother, hdeclares⟩ := hearlier
      obtain ⟨otherFound, hotherFound⟩ := Option.ne_none_iff_exists'.mp hdeclares
      exact ih earlier hlt hother hotherFound

/-- Where a class does not itself declare a method, the first class of its chain that does is the
    first one of its superclass's chain. -/
theorem declaresFirst_succ_iff {name parentName method : String} {decl : ClassDecl}
    (hdecl : table.anywhere? name = some decl) (hparent : decl.superclass = some parentName)
    (hown : decl.method? method = none) {place : Nat} {found : FunctionDecl} :
    table.DeclaresFirst name method (place + 1) found ↔
      table.DeclaresFirst parentName method place found := by
  have hchain := onChain?_of_parent hdecl hparent
  constructor
  · rintro ⟨hdeclares, hfirst⟩
    refine ⟨by rw [hchain]; exact hdeclares, fun earlier hlt other hother => ?_⟩
    exact hfirst (earlier + 1) (Nat.succ_lt_succ hlt) other ((hchain earlier).symm.trans hother)
  · rintro ⟨hdeclares, hfirst⟩
    refine ⟨by rw [← hchain]; exact hdeclares, fun earlier hlt other hother => ?_⟩
    cases earlier with
    | zero =>
      rw [onChain?, hdecl] at hother
      obtain rfl := Option.some.inj hother
      exact hown
    | succ earlier =>
      exact hfirst earlier (Nat.lt_of_succ_lt_succ hlt) other ((hchain earlier).trans hother)

/-- The superclass of a class that does not declare a method resolves it as the class does, where the
    classes of the chain are no more than a walk visits. -/
theorem methodOf?_of_parent {name parentName method : String} {decl : ClassDecl}
    {visited : List ClassDecl} (hwithin : table.ChainWithin name visited)
    (hfew : visited.length ≤ lineageLimit) (hdecl : table.anywhere? name = some decl)
    (hparent : decl.superclass = some parentName) (hown : decl.method? method = none) :
    table.methodOf? name method = table.methodOf? parentName method := by
  ext found
  rw [methodOf?_eq_some_iff, methodOf?_eq_some_iff]
  constructor
  · rintro ⟨place, hlimit, hfirst⟩
    cases place with
    | zero =>
      have hdeclares := hfirst.declares
      rw [onChain?, hdecl, Option.bind_some, forebear?, Option.bind_some, hown] at hdeclares
      cases hdeclares
    | succ place =>
      exact ⟨place, by omega, (declaresFirst_succ_iff hdecl hparent hown).mp hfirst⟩
  · rintro ⟨place, _, hfirst⟩
    have hnext := (declaresFirst_succ_iff hdecl hparent hown).mpr hfirst
    exact ⟨place + 1, place_lt_of_declaresFirst hwithin hfew hnext, hnext⟩

/-- Classes among which the class of a name is, and the superclass of each of them, are all that its
    chain can lead to. -/
theorem chainWithin_of_closed {name : String} {visited : List ClassDecl}
    (hstart : ∀ decl, table.anywhere? name = some decl → decl ∈ visited)
    (hclosed : ∀ decl ∈ visited, ∀ parent, table.parent? decl = some parent → parent ∈ visited) :
    table.ChainWithin name visited := by
  intro place
  induction place with
  | zero =>
    intro decl hdecl
    obtain ⟨start, hname, ⟨⟩⟩ := Option.bind_eq_some_iff.mp hdecl
    exact hstart decl hname
  | succ place ih =>
    intro parent hparent
    rw [onChain?_add] at hparent
    obtain ⟨decl, hdecl, hstep⟩ := Option.bind_eq_some_iff.mp hparent
    rw [forebear?, Option.bind_eq_some_iff] at hstep
    obtain ⟨next, hnext, ⟨⟩⟩ := hstep
    exact hclosed decl (ih decl hdecl) parent hnext

/-- Inheritance along any superclass chain, whether it ends, names a class that is unknown, or comes
    back to a class that it has left. Whatever a class inherits is declared on its chain, a method by
    the first class that declares it. Where no more classes stand on the chain than a walk visits,
    nothing that is declared on it is missed, and a class that does not itself declare a method has
    the method of its superclass; the place at which the chain enters a loop does not matter. -/
theorem inherits_along_chain (table : ClassTable) (name : String) :
    (∀ method found, table.methodOf? name method = some found →
      ∃ place, table.DeclaresFirst name method place found) ∧
    (∀ interface, table.implements name interface = true →
      ∃ place decl, table.onChain? name place = some decl ∧ decl.lists interface = true) ∧
    ∀ visited, table.ChainWithin name visited → visited.length ≤ lineageLimit →
      (∀ method, table.methodOf? name method = none ↔
        ∀ place decl, table.onChain? name place = some decl → decl.method? method = none) ∧
      (∀ interface, table.implements name interface = true ↔
        ∃ place decl, table.onChain? name place = some decl ∧ decl.lists interface = true) ∧
      ∀ decl parentName method, table.anywhere? name = some decl →
        decl.superclass = some parentName → decl.method? method = none →
        table.methodOf? name method = table.methodOf? parentName method := by
  refine ⟨fun method found hfound => ?_, fun interface himplements => ?_,
    fun visited hwithin hfew => ⟨fun method => ⟨fun hnone place decl hdecl => ?_, fun hnone => ?_⟩,
      fun interface => ⟨fun himplements => ?_, ?_⟩,
      fun _ _ _ => methodOf?_of_parent hwithin hfew⟩⟩
  · obtain ⟨place, _, hfirst⟩ := methodOf?_eq_some_iff.mp hfound
    exact ⟨place, hfirst⟩
  · obtain ⟨place, decl, _, hdecl, hlists⟩ := implements_iff.mp himplements
    exact ⟨place, decl, hdecl, hlists⟩
  · rw [Option.eq_none_iff_forall_not_mem]
    intro found hmethod
    obtain ⟨first, other, hfirst⟩ := exists_declaresFirst hdecl hmethod
    have hfound := methodOf?_eq_some_iff.mpr
      ⟨first, place_lt_of_declaresFirst hwithin hfew hfirst, hfirst⟩
    rw [hnone] at hfound
    cases hfound
  · rw [Option.eq_none_iff_forall_not_mem]
    intro found hfound
    obtain ⟨place, _, hfirst⟩ := methodOf?_eq_some_iff.mp hfound
    obtain ⟨decl, hdecl, hmethod⟩ := Option.bind_eq_some_iff.mp hfirst.declares
    rw [hnone place decl hdecl] at hmethod
    cases hmethod
  · obtain ⟨place, decl, _, hdecl, hlists⟩ := implements_iff.mp himplements
    exact ⟨place, decl, hdecl, hlists⟩
  · rintro ⟨place, decl, hdecl, hlists⟩
    obtain ⟨early, hearly, _, hfound⟩ := exists_place_lt hwithin place hdecl
    exact implements_iff.mpr ⟨early, decl, Nat.lt_of_lt_of_le hearly hfew, hfound, hlists⟩

/-- A class outside a loop of two classes, of which one declares a method and the other lists an
    interface. -/
def looping : ClassTable :=
  ⟨[{ name := "tail", superclass := some "first" },
    { name := "first", superclass := some "second", interfaces := ["I"] },
    { name := "second", superclass := some "first", methods := [⟨"m", 1, []⟩] }]⟩

/-- Around a loop that is entered from outside, each class has what is declared on the loop. -/
theorem inherits_around_loop :
    looping.ChainWithin "tail" looping.entries ∧
      looping.methodOf? "tail" "m" = looping.methodOf? "first" "m" ∧
      looping.methodOf? "tail" "absent" = none ∧ looping.implements "tail" "I" = true := by
  have hparents : looping.entries.map looping.parent? =
      [looping.entries[1]?, looping.entries[2]?, looping.entries[1]?] := rfl
  have hwithin : looping.ChainWithin "tail" looping.entries := by
    refine chainWithin_of_closed (fun decl hdecl => ?_) fun decl hdecl parent hparent => ?_
    · have hfirst : looping.anywhere? "tail" = looping.entries[0]? := rfl
      exact List.mem_of_getElem? (hfirst.symm.trans hdecl)
    · have hentry := List.mem_map_of_mem (f := looping.parent?) hdecl
      rw [hparents, hparent] at hentry
      simp only [List.mem_cons, List.not_mem_nil, or_false] at hentry
      rcases hentry with hentry | hentry | hentry
      all_goals exact List.mem_of_getElem? hentry.symm
  obtain ⟨_, _, hcomplete⟩ := inherits_along_chain looping "tail"
  obtain ⟨hmethods, hinterfaces, hparent⟩ := hcomplete looping.entries hwithin (by decide)
  have hnowhere : ∀ decl ∈ looping.entries, decl.method? "absent" = none := by
    simp [looping, ClassDecl.method?]
  refine ⟨hwithin, hparent _ "first" "m" rfl rfl rfl, ?_, (hinterfaces "I").mpr ?_⟩
  · exact (hmethods "absent").mpr fun place decl hdecl => hnowhere decl (hwithin place decl hdecl)
  · exact ⟨1, _, rfl, by decide⟩

end ClassTable

end InterpreterCore
