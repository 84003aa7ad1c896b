import WorkspaceImports.Json.Basic

namespace WorkspaceImports.Json

-- A value in which every string is a text.
inductive Whole : Json → Prop
  | null : Whole .null
  | bool (value : Bool) : Whole (.bool value)
  | number (value : Number) : Whole (.number value)
  | text (value : Text) : Whole (.text value)
  | array {items : List Json} (h : ∀ item ∈ items, Whole item) : Whole (.array items)
  | object {members : List (Text × Json)} (h : ∀ member ∈ members, Whole member.2) :
      Whole (.object members)

theorem whole_array_iff {items : List Json} : (array items).Whole ↔ ∀ item ∈ items, item.Whole :=
  ⟨fun h => by cases h; assumption, .array⟩

theorem whole_object_iff {members : List (Text × Json)} :
    (object members).Whole ↔ ∀ member ∈ members, member.2.Whole :=
  ⟨fun h => by cases h; assumption, .object⟩

variable {name : Text} {json : Json} {members other : List (Text × Json)}

theorem mem_of_member? (h : member? name members = some json) : (name, json) ∈ members := by
  obtain ⟨before, after, hsplit, -⟩ := List.lookup_eq_some_iff.mp h
  exact List.mem_reverse.mp (hsplit ▸ List.mem_append_right before List.mem_cons_self)

theorem Whole.of_member? (hwhole : (Json.object members).Whole)
    (h : member? name members = some json) : json.Whole := by
  cases hwhole with
  | object hmembers => exact hmembers _ (mem_of_member? h)

-- The member of a name, or else the one of another name, with the name that it has.
def memberOf? (name other : Text) (members : List (Text × Json)) : Option (Text × Json) :=
  ((member? name members).map (name, ·)).or ((member? other members).map (other, ·))

theorem memberOf?_eq_none_iff {second : Text} : memberOf? name second members = none ↔
    member? name members = none ∧ member? second members = none := by
  simp [memberOf?]

theorem Whole.of_memberOf? {second found : Text} (hwhole : (Json.object members).Whole)
    (h : memberOf? name second members = some (found, json)) : json.Whole := by
  rcases Option.or_eq_some_iff.mp h with hfirst | ⟨-, hsecond⟩
  · obtain ⟨value, hvalue, heq⟩ := Option.map_eq_some_iff.mp hfirst
    cases heq
    exact hwhole.of_member? hvalue
  · obtain ⟨value, hvalue, heq⟩ := Option.map_eq_some_iff.mp hsecond
    cases heq
    exact hwhole.of_member? hvalue

-- Where no name is repeated, a member counts wherever it stands.
theorem member?_eq_some_iff (hnodup : (members.map Prod.fst).Nodup) :
    member? name members = some json ↔ (name, json) ∈ members := by
  constructor
  · exact mem_of_member?
  · intro hmem
    obtain ⟨before, after, hsplit⟩ := List.append_of_mem (List.mem_reverse.mpr hmem)
    have hreverse : (members.reverse.map Prod.fst).Nodup :=
      ((List.reverse_perm members).map Prod.fst).nodup_iff.mpr hnodup
    rw [hsplit, List.map_append, List.nodup_append] at hreverse
    refine List.lookup_eq_some_iff.mpr ⟨before, after, hsplit, fun found hfound => ?_⟩
    have hne := hreverse.2.2 found.1 (List.mem_map_of_mem hfound) name (by simp)
    simpa using hne.symm

theorem member?_perm (hnodup : (members.map Prod.fst).Nodup) (hperm : members.Perm other) :
    member? name members = member? name other := by
  have hother : (other.map Prod.fst).Nodup := (hperm.map _).nodup_iff.mp hnodup
  apply Option.ext
  intro json
  rw [member?_eq_some_iff hnodup, member?_eq_some_iff hother, hperm.mem_iff]

end WorkspaceImports.Json
