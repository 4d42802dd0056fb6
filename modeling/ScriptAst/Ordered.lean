/-!
# Lists in order of first insertion

Names and bindings are kept in the order in which a name first came.  Adding a name again leaves a
list of names as it is, and binding it again replaces its value where it stands.
-/
namespace ScriptAst

/-- The names with `name` at the end, unless it is among them already. -/
def addName (name : String) (names : List String) : List String :=
  if name ∈ names then names else names ++ [name]

/-- The bindings with `name` bound to `value`, in its old place if it has one. -/
def bindName {α : Type} (name : String) (value : α) : List (String × α) → List (String × α)
  | [] => [(name, value)]
  | (key, old) :: rest =>
    if key = name then (name, value) :: rest else (key, old) :: bindName name value rest

theorem mem_addName {a name : String} {names : List String} :
    a ∈ addName name names ↔ a ∈ names ∨ a = name := by
  unfold addName
  split <;> grind

/-- The names before come first. -/
theorem prefix_addName (name : String) (names : List String) : names <+: addName name names := by
  unfold addName
  split
  · exact List.prefix_rfl
  · exact List.prefix_append ..

theorem nodup_addName {name : String} {names : List String} (h : names.Nodup) :
    (addName name names).Nodup := by
  unfold addName
  split <;> grind [List.nodup_append]

/-- The keys of bindings take in a name as names do. -/
theorem map_fst_bindName {α : Type} (name : String) (value : α) (entries : List (String × α)) :
    (bindName name value entries).map Prod.fst = addName name (entries.map Prod.fst) := by
  induction entries with
  | nil => rfl
  | cons entry rest ih =>
    obtain ⟨key, old⟩ := entry
    by_cases h : key = name
    · simp [bindName, addName, h]
    · simp only [bindName, h, if_false, List.map_cons, ih]
      unfold addName
      grind

/-- Under other names a name is found where it was, as long as different names stay different. -/
theorem mem_map_names {r : String → String} (hr : Function.Injective r) {name : String}
    {names : List String} : r name ∈ names.map r ↔ name ∈ names := by
  rw [List.mem_map]
  constructor
  · rintro ⟨other, hmem, heq⟩
    exact hr heq ▸ hmem
  · intro hmem
    exact ⟨name, hmem, rfl⟩

/-- Under other names a name is taken in as before. -/
theorem map_addName {r : String → String} (hr : Function.Injective r) (name : String)
    (names : List String) : (addName name names).map r = addName (r name) (names.map r) := by
  simp only [addName, mem_map_names hr]
  split
  · rfl
  · rw [List.map_append, List.map_singleton]

/-- Under other names, and with other values, a name is bound as before. -/
theorem map_bindName {α β : Type} {r : String → String} (hr : Function.Injective r) (f : α → β)
    (name : String) (value : α) (entries : List (String × α)) :
    (bindName name value entries).map (fun (key, v) => (r key, f v)) =
      bindName (r name) (f value) (entries.map fun (key, v) => (r key, f v)) := by
  induction entries with
  | nil => rfl
  | cons entry rest ih =>
    simp only [bindName, List.map_cons, hr.eq_iff]
    split
    · rfl
    · rw [List.map_cons, ih]

theorem mem_bindName {α : Type} {name : String} {value : α} {entries : List (String × α)}
    {entry : String × α} (h : entry ∈ bindName name value entries) :
    entry = (name, value) ∨ entry ∈ entries := by
  induction entries with
  | nil => exact .inl (List.mem_singleton.mp h)
  | cons first rest ih =>
    unfold bindName at h
    split at h
    · exact (List.mem_cons.mp h).imp_right (List.mem_cons_of_mem _)
    · rcases List.mem_cons.mp h with rfl | h
      · exact .inr (List.mem_cons_self ..)
      · exact (ih h).imp_right (List.mem_cons_of_mem _)

/-- A name is bound to the value it was bound to last. -/
theorem lookup_bindName {α : Type} (a name : String) (value : α) (entries : List (String × α)) :
    (bindName name value entries).lookup a =
      if a = name then some value else entries.lookup a := by
  have lookup_cons (key : String) (v : α) (rest : List (String × α)) :
      ((key, v) :: rest).lookup a = if a = key then some v else rest.lookup a := by
    by_cases h : a = key
    · simp [h]
    · simp [List.lookup_cons, beq_eq_false_iff_ne.2 h, h]
  induction entries with
  | nil => simp [bindName, lookup_cons]
  | cons entry rest ih =>
    obtain ⟨key, old⟩ := entry
    by_cases hk : key = name
    · by_cases h : a = name <;> simp [bindName, lookup_cons, hk, h]
    · by_cases h : a = key
      · simp [bindName, hk, h]
      · simp [bindName, lookup_cons, hk, h, ih]

end ScriptAst
