/-!
# Sorted fields

Maps and props are lists of named items in ascending order of their names.  Insertion keeps the
order and replaces the item of an equal name, so a list of fields is determined by what its names
stand for.
-/

namespace Phrasing.Fields

variable {α : Type}

/-- The fields with `name` standing for `item`. -/
def insert (name : String) (item : α) : List (String × α) → List (String × α)
  | [] => [(name, item)]
  | (other, present) :: rest =>
      if name < other then (name, item) :: (other, present) :: rest
      else if name = other then (name, item) :: rest
      else (other, present) :: insert name item rest

/-- The fields with others added, later ones replacing earlier ones of the same name. -/
def insertAll (fields added : List (String × α)) : List (String × α) :=
  added.foldl (fun fields field => insert field.1 field.2 fields) fields

/-- Fields in ascending order, from any list of named items. -/
def ofList (added : List (String × α)) : List (String × α) :=
  insertAll [] added

theorem lookup_cons (name other : String) (item : α) (fields : List (String × α)) :
    ((name, item) :: fields).lookup other =
      if other = name then some item else fields.lookup other := by
  rw [List.lookup_cons]
  by_cases equal : other = name
  · rw [beq_iff_eq.mpr equal, if_pos equal]
  · rw [beq_eq_false_iff_ne.mpr equal, if_neg equal]

theorem lookup_insert (name other : String) (item : α) (fields : List (String × α)) :
    (insert name item fields).lookup other =
      if other = name then some item else fields.lookup other := by
  induction fields with
  | nil => exact lookup_cons name other item []
  | cons field rest induction =>
      obtain ⟨present, value⟩ := field
      rw [insert]
      split
      · exact lookup_cons name other item _
      · split
        · next same =>
            subst same
            rw [lookup_cons, lookup_cons]
            split <;> rfl
        · next distinct =>
            rw [lookup_cons, lookup_cons, induction]
            by_cases equal : other = name
            · subst equal
              rw [if_pos rfl, if_pos rfl, if_neg distinct]
            · rw [if_neg equal, if_neg equal]

end Phrasing.Fields
