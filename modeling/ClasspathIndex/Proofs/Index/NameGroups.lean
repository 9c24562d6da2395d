import ClasspathIndex.Index.NameGroups
import ClasspathIndex.Proofs.Registry

/-!
# What the groups of simple names hold

Groups are gathered place by place.  After every place, the group of a name holds the places of
the classes seen so far that have it, in order (`NameGroups.placesOf_foldl`).  So a place is once
in the group of the simple name of its class and in no other one
(`NameGroups.count_places_ofClasses`), and the members of a group are the classes that have the
name, in the order of all classes (`NameGroups.members_ofClasses`).
-/

namespace ClasspathIndex

namespace NameGroups

variable {groups : NameGroups} {classes : List ClassSymbol} {name : String}

/-! ### One place -/

/-- Without groups a name has no places. -/
lemma placesOf_empty (name : String) : placesOf .empty name = [] :=
  rfl

/-- A place is added to the group of its name, and to no other one. -/
lemma placesOf_addPlace (groups : NameGroups) (own : String) (place : Nat) (name : String) :
    (groups.addPlace own place).placesOf name =
      groups.placesOf name ++ if own = name then [place] else [] := by
  unfold addPlace placesOf
  rw [Registry.find?_put]
  split
  · rename_i hname
    subst hname
    rfl
  · rw [List.append_nil]

/-- The places of a group are those of its name. -/
lemma placesOf_of_mem {g : NameGroup} (h : g ∈ groups.entries) :
    groups.placesOf g.name = g.places := by
  have hfilter := Registry.filter_eq_toList_find? groups g.name
  have hmem : g ∈ (groups.find? g.name).toList := by
    rw [← hfilter]
    exact List.mem_filter.2 ⟨h, beq_self_eq_true _⟩
  unfold placesOf
  rw [Option.mem_toList.1 hmem]
  rfl

/-- A name with a place has a group. -/
lemma mem_entries_of_mem_placesOf {place : Nat} (h : place ∈ groups.placesOf name) :
    ∃ g ∈ groups.entries, g.name = name ∧ place ∈ g.places := by
  unfold placesOf at h
  cases hfind : groups.find? name with
  | none =>
    rw [hfind] at h
    exact absurd h List.not_mem_nil
  | some g =>
    rw [hfind] at h
    exact ⟨g, List.mem_of_find?_eq_some hfind, Registry.name_of_find?_eq_some hfind, h⟩

/-! ### All places -/

/-- The places of classes with a simple name, among classes with their places. -/
def placesAmong (cs : List (ClassSymbol × Nat)) (name : String) : List Nat :=
  (cs.filter fun c => c.1.simpleName == name).map Prod.snd

/-- What was gathered is followed by the places of the classes that come. -/
lemma placesOf_foldl (groups : NameGroups) (cs : List (ClassSymbol × Nat)) (name : String) :
    (cs.foldl (fun groups c => groups.addPlace c.1.simpleName c.2) groups).placesOf name =
      groups.placesOf name ++ placesAmong cs name := by
  induction cs generalizing groups with
  | nil => simp [placesAmong]
  | cons c cs ih =>
    rw [List.foldl_cons, ih, placesOf_addPlace, List.append_assoc]
    congr 1
    unfold placesAmong
    split
    · rename_i hname
      rw [List.filter_cons_of_pos (by simpa using hname), List.map_cons, List.singleton_append]
    · rename_i hname
      rw [List.filter_cons_of_neg (by simpa using hname), List.nil_append]

/-- The places of a name are those of the classes with this simple name. -/
lemma placesOf_ofClasses (classes : List ClassSymbol) (name : String) :
    (ofClasses classes).placesOf name = placesAmong classes.zipIdx name := by
  unfold ofClasses
  rw [placesOf_foldl, placesOf_empty, List.nil_append]

/-- The group of a name holds the places of the classes with that simple name. -/
lemma mem_placesOf_ofClasses {place : Nat} :
    place ∈ (ofClasses classes).placesOf name ↔
      ∃ c, classes[place]? = some c ∧ c.simpleName = name := by
  rw [placesOf_ofClasses, placesAmong, List.mem_map]
  constructor
  · rintro ⟨⟨c, _⟩, hc, rfl⟩
    obtain ⟨hmem, hname⟩ := List.mem_filter.1 hc
    exact ⟨c, List.mem_zipIdx_iff_getElem?.1 hmem, beq_iff_eq.1 hname⟩
  · rintro ⟨c, hc, hname⟩
    exact ⟨(c, place), List.mem_filter.2 ⟨List.mem_zipIdx_iff_getElem?.2 hc, beq_iff_eq.2 hname⟩,
      rfl⟩

/-- The places of a group are in increasing order. -/
lemma pairwise_placesOf_ofClasses (classes : List ClassSymbol) (name : String) :
    ((ofClasses classes).placesOf name).Pairwise (· < ·) := by
  have hplaces : classes.zipIdx.Pairwise fun a b => a.2 < b.2 := by
    rw [← List.pairwise_map (f := Prod.snd), List.zipIdx_map_snd]
    exact List.pairwise_lt_range'
  rw [placesOf_ofClasses, placesAmong, List.pairwise_map]
  exact hplaces.filter _

/-- The members of a group are the classes with the simple name, in the order of all classes. -/
lemma members_ofClasses (classes : List ClassSymbol) (name : String) :
    (ofClasses classes).members classes name = classes.filter fun c => c.simpleName == name := by
  have hat : ∀ c ∈ classes.zipIdx.filter fun c => c.1.simpleName == name,
      ((fun place => classes[place]?) ∘ Prod.snd) c = (some ∘ Prod.fst) c := by
    intro c hc
    exact List.mem_zipIdx_iff_getElem?.1 (List.mem_filter.1 hc).1
  rw [members, placesOf_ofClasses, placesAmong, List.filterMap_map, List.filterMap_congr hat,
    List.filterMap_eq_map]
  have hfilter := List.filter_map (f := Prod.fst) (p := fun c => c.simpleName == name)
    (l := classes.zipIdx)
  rw [List.zipIdx_map_fst] at hfilter
  exact hfilter.symm

/-- A group of classes has the simple name of a class, and holds its place exactly once; no other
group holds it. -/
lemma count_places_ofClasses {g : NameGroup} (hg : g ∈ (ofClasses classes).entries) {place : Nat}
    {c : ClassSymbol} (hc : classes[place]? = some c) :
    g.places.count place = if c.simpleName = g.name then 1 else 0 := by
  rw [← placesOf_of_mem hg]
  have hnodup : ((ofClasses classes).placesOf g.name).Nodup :=
    (pairwise_placesOf_ofClasses classes g.name).imp fun h => Nat.ne_of_lt h
  split
  · rename_i hname
    exact List.count_eq_one_of_mem hnodup (mem_placesOf_ofClasses.2 ⟨c, hc, hname⟩)
  · rename_i hname
    rw [List.count_eq_zero]
    intro hmem
    obtain ⟨d, hd, hdname⟩ := mem_placesOf_ofClasses.1 hmem
    obtain rfl := Option.some.inj (hc.symm.trans hd)
    exact hname hdname

end NameGroups

end ClasspathIndex
