import PenScript.Store

/-!
# Stores as partial maps

A store is a list of slots, but a run can only look names up in it.  This module
says what the operations do to a lookup, to the declared names, and to a store
whose values are all literals.
-/

namespace PenScript.Store

/-- The declared names, in the order of their declaration. -/
def names (store : Store) : List String :=
  store.slots.map Prod.fst

/-- The value of a variable, if it is declared and has one. -/
def value? (store : Store) (name : String) : Option Value :=
  (store.find? name).join

/-- Every value in the store is a literal. -/
def LiteralOnly (store : Store) : Prop :=
  ∀ slot ∈ store.slots, ∀ value, slot.2 = some value → ∃ result,
    value = .literal result

/-- No variable has a value. -/
def Vacant (store : Store) : Prop :=
  ∀ slot ∈ store.slots, slot.2 = none

theorem Vacant.literalOnly {store : Store} (vacant : store.Vacant) :
    store.LiteralOnly := by
  intro slot member value filled
  rw [vacant slot member] at filled
  cases filled

@[simp] theorem vacant_empty : empty.Vacant := by
  intro slot member
  cases member

@[simp] theorem literalOnly_empty : empty.LiteralOnly :=
  vacant_empty.literalOnly

/-! ### Lookups -/

theorem lookup_slot_cons (other : String) (slot : String × Option Value)
    (rest : List (String × Option Value)) :
    (slot :: rest).lookup other = if other = slot.1 then some slot.2
      else rest.lookup other := by
  obtain ⟨key, held⟩ := slot
  rw [List.lookup_cons]
  by_cases same : other = key
  · simp [same]
  · have different : (other == key) = false := beq_eq_false_iff_ne.mpr same
    simp [different, same]

theorem mem_slots_of_find? {store : Store} {name : String} {slot : Option Value}
    (found : store.find? name = some slot) : (name, slot) ∈ store.slots := by
  obtain ⟨before, after, split, _⟩ := List.lookup_eq_some_iff.mp found
  rw [split]
  simp

theorem find?_of_mem_slots {store : Store} (distinct : store.names.Nodup)
    {name : String} {slot : Option Value}
    (member : (name, slot) ∈ store.slots) :
    store.find? name = some slot := by
  obtain ⟨slots⟩ := store
  simp only [find?, names] at *
  induction slots with
  | nil => cases member
  | cons first rest ih =>
      simp only [List.map_cons, List.nodup_cons] at distinct
      rcases List.mem_cons.mp member with same | later
      · simp [← same]
      · have different : name ≠ first.1 := by
          intro same
          exact distinct.1 (List.mem_map.mpr ⟨_, later, same⟩)
        rw [lookup_slot_cons, if_neg different]
        exact ih distinct.2 later

theorem contains_iff_mem_names {store : Store} {name : String} :
    store.contains name = true ↔ name ∈ store.names := by
  rw [contains, find?, List.lookup_isSome_iff]
  simp only [names, List.mem_map, beq_iff_eq]
  constructor
  · rintro ⟨slot, member, same⟩
    exact ⟨slot, member, same.symm⟩
  · rintro ⟨slot, member, same⟩
    exact ⟨slot, member, same.symm⟩

theorem contains_of_value? {store : Store} {name : String} {value : Value}
    (found : store.value? name = some value) : store.contains name = true := by
  cases slot : store.find? name with
  | none => simp [value?, slot] at found
  | some _ => simp [contains, slot]

theorem value?_eq_some_iff {store : Store} {name : String} {value : Value} :
    store.value? name = some value ↔ store.find? name = some (some value) := by
  simp [value?, Option.join_eq_some_iff]

theorem value?_of_not_contains {store : Store} {name : String}
    (missing : store.contains name = false) : store.value? name = none := by
  cases slot : store.find? name with
  | none => simp [value?, slot]
  | some _ => simp [contains, slot] at missing

theorem Vacant.value?_eq_none {store : Store} (vacant : store.Vacant)
    (name : String) :
    store.value? name = none := by
  cases found : store.value? name with
  | none => rfl
  | some value =>
      have member := mem_slots_of_find? (value?_eq_some_iff.mp found)
      exact absurd (vacant _ member) (by simp)

theorem LiteralOnly.value?_literal {store : Store}
    (literals : store.LiteralOnly) {name : String} {value : Value}
    (found : store.value? name = some value) :
    ∃ result, value = .literal result :=
  literals _ (mem_slots_of_find? (value?_eq_some_iff.mp found)) value rfl

/-! ### Insertion -/

theorem lookup_putSlot (name other : String) (value : Option Value)
    (slots : List (String × Option Value)) :
    (putSlot name value slots).lookup other =
      if other = name then some value else slots.lookup other := by
  induction slots with
  | nil => simp [putSlot, lookup_slot_cons]
  | cons slot rest ih =>
      by_cases here : slot.1 = name
      · by_cases same :
          other = name <;> simp [putSlot, here, lookup_slot_cons, same]
      · by_cases same : other = slot.1
        · subst same
          simp [putSlot, lookup_slot_cons, here]
        · simp [putSlot, here, lookup_slot_cons, same, ih]

theorem find?_insert (store : Store) (name other : String)
    (value : Option Value) :
    (store.insert name value).find? other =
      if other = name then some value else store.find? other :=
  lookup_putSlot name other value store.slots

theorem value?_set (store : Store) (name other : String) (value : Value) :
    (store.set name value).value? other =
      if other = name then some value else store.value? other := by
  simp only [value?, set, find?_insert]
  split <;> rfl

theorem contains_insert (store : Store) (name other : String)
    (value : Option Value) :
    (store.insert name value).contains other =
      (other = name || store.contains other) := by
  by_cases same : other = name <;> simp [contains, find?_insert, same]

theorem mem_putSlot {name : String} {value : Option Value}
    {slots : List (String × Option Value)} {slot : String × Option Value}
    (member : slot ∈ putSlot name value slots) :
    slot = (name, value) ∨ slot ∈ slots := by
  induction slots with
  | nil => exact .inl (by simpa [putSlot] using member)
  | cons first rest ih =>
      unfold putSlot at member
      split at member
      · rcases List.mem_cons.mp member with same | later
        · exact .inl same
        · exact .inr (List.mem_cons_of_mem _ later)
      · rcases List.mem_cons.mp member with same | later
        · exact .inr (by simp [same])
        · exact (ih later).imp_right (List.mem_cons_of_mem _)

theorem putSlot_of_not_mem {name : String} {value : Option Value}
    {slots : List (String × Option Value)}
    (missing : name ∉ slots.map Prod.fst) :
    putSlot name value slots = slots ++ [(name, value)] := by
  induction slots with
  | nil => rfl
  | cons first rest ih =>
      simp only [List.map_cons, List.mem_cons, not_or] at missing
      simp [putSlot, Ne.symm missing.1, ih missing.2]

theorem map_fst_putSlot_of_mem {name : String} {value : Option Value}
    {slots : List (String × Option Value)}
    (present : name ∈ slots.map Prod.fst) :
    (putSlot name value slots).map Prod.fst = slots.map Prod.fst := by
  induction slots with
  | nil => cases present
  | cons first rest ih =>
      by_cases here : first.1 = name
      · simp [putSlot, here]
      · have later : name ∈ rest.map Prod.fst := by
          simpa [Ne.symm here] using present
        simp [putSlot, here, ih later]

/-- A name that is declared keeps its place; a new one comes last. -/
theorem names_insert (store : Store) (name : String) (value : Option Value) :
    (store.insert name value).names =
      if name ∈ store.names then store.names else store.names ++ [name] := by
  by_cases present : name ∈ store.names
  · rw [if_pos present]
    exact map_fst_putSlot_of_mem present
  · rw [if_neg present]
    simp only [names, insert, putSlot_of_not_mem present]
    simp

theorem names_subset_insert (store : Store) (name : String)
    (value : Option Value) :
    store.names ⊆ (store.insert name value).names := by
  intro other member
  rw [names_insert]
  split
  · exact member
  · exact List.mem_append_left _ member

theorem mem_names_insert_iff {store : Store} {name other : String}
    {value : Option Value} :
    other ∈ (store.insert name value).names ↔ other = name ∨
    other ∈ store.names := by
  rw [← contains_iff_mem_names, contains_insert, ← contains_iff_mem_names]
  simp

theorem mem_names_insert {store : Store} {name other : String}
    {value : Option Value} (member : other ∈ (store.insert name value).names) :
    other = name ∨ other ∈ store.names :=
  mem_names_insert_iff.mp member

theorem nodup_names_insert {store : Store} (distinct : store.names.Nodup)
    (name : String) (value : Option Value) :
    (store.insert name value).names.Nodup := by
  rw [names_insert]
  split
  · exact distinct
  · next missing =>
      rw [List.nodup_append]
      refine ⟨distinct, by simp, ?_⟩
      intro other member new last same
      rw [List.mem_singleton.mp last] at same
      exact missing (same ▸ member)

theorem LiteralOnly.set {store : Store} (literals : store.LiteralOnly)
    (name : String) (result : Literal) :
    (store.set name (.literal result)).LiteralOnly := by
  intro slot member value filled
  rcases mem_putSlot member with rfl | old
  · cases filled
    exact ⟨result, rfl⟩
  · exact literals slot old value filled

theorem LiteralOnly.insert_none {store : Store} (literals : store.LiteralOnly)
    (name : String) :
    (store.insert name none).LiteralOnly := by
  intro slot member value filled
  rcases mem_putSlot member with rfl | old
  · cases filled
  · exact literals slot old value filled

theorem Vacant.insert_none {store : Store} (vacant : store.Vacant)
    (name : String) :
    (store.insert name none).Vacant := by
  intro slot member
  rcases mem_putSlot member with rfl | old
  · rfl
  · exact vacant slot old

end PenScript.Store
