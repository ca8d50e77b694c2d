import Vidarax.Base.Json

/-!
# JSON objects

Library `Base`. Members are inserted into objects and looked up by their key. The order of members
is that of no printer, so that only look-ups tell objects apart.
-/

namespace Vidarax.Base

namespace Json

/-- A whole number of 64 bits. -/
def whole (n : UInt64) : Json := number (.posInt n)

/-- An optional value, or null. -/
def nullable {α : Type} (write : α → Json) : Option α → Json
  | some a => write a
  | none => null

/-- Members under other keys. -/
def dropKey (key : String) (members : List (String × Json)) : List (String × Json) :=
  members.filter (·.1 ≠ key)

/-- `Map::insert` on an object, and nothing on other values. -/
def insert (json : Json) (key : String) (value : Json) : Json :=
  match json with
  | object members => object ((key, value) :: dropKey key members)
  | json => json

/-- `Entry::or_insert_with` on an object, and nothing on other values. -/
def orInsert (json : Json) (key : String) (value : Json) : Json :=
  match json with
  | object members =>
    match members.lookup key with
    | some _ => object members
    | none => object ((key, value) :: members)
  | json => json

/-- The value is an object. -/
def IsObject : Json → Prop
  | object _ => True
  | _ => False

instance (json : Json) : Decidable json.IsObject := by
  cases json <;> unfold IsObject <;> infer_instance

variable {key other : String} {value json : Json}

theorem lookup_cons_ne (h : other ≠ key) (members : List (String × Json)) :
    ((key, value) :: members).lookup other = members.lookup other := by
  rw [List.lookup_cons, beq_eq_false_iff_ne.mpr h]

theorem lookup_dropKey (h : other ≠ key) (members : List (String × Json)) :
    (dropKey key members).lookup other = members.lookup other := by
  induction members with
  | nil => rfl
  | cons member members ih =>
    rw [dropKey, List.filter_cons]
    split
    · rw [List.lookup_cons, List.lookup_cons, ← dropKey, ih]
    · next hkey =>
      have hkey : member.1 = key := by simpa using hkey
      rw [← dropKey, ih, List.lookup_cons, hkey, beq_eq_false_iff_ne.mpr h]

theorem IsObject.insert (h : json.IsObject) : (json.insert key value).IsObject := by
  cases json with
  | object members => trivial
  | _ => exact absurd h (by simp [IsObject])

theorem get_insert_self (h : json.IsObject) : (json.insert key value).get key = some value := by
  cases json with
  | object members => exact List.lookup_cons_self
  | _ => exact absurd h (by simp [IsObject])

theorem get_insert_ne (h : other ≠ key) : (json.insert key value).get other = json.get other := by
  cases json with
  | object members => exact (lookup_cons_ne h _).trans (lookup_dropKey h members)
  | _ => rfl

/-- An object gets a member that it lacks. -/
theorem get_orInsert_of_none (hobject : json.IsObject) (h : json.get key = none) :
    (json.orInsert key value).get key = some value := by
  cases json with
  | object members =>
    have h : members.lookup key = none := h
    rw [orInsert, h]
    exact List.lookup_cons_self
  | _ => exact absurd hobject (by simp [IsObject])

/-- What an item gets under a key that it lacks. -/
theorem get_orInsert_iff {other : Json} (h : json.get key = none) :
    (json.orInsert key value).get key = some other ↔ json.IsObject ∧ value = other := by
  by_cases hobject : json.IsObject
  · rw [get_orInsert_of_none hobject h, Option.some.injEq]
    exact (and_iff_right hobject).symm
  · have hsame : json.orInsert key value = json := by
      cases json with
      | object members => exact absurd trivial hobject
      | _ => rfl
    rw [hsame, h]
    exact iff_of_false (Option.some_ne_none _).symm fun hboth ↦ hobject hboth.1

theorem get_orInsert_ne (h : other ≠ key) :
    (json.orInsert key value).get other = json.get other := by
  cases json with
  | object members =>
    rw [orInsert]
    split
    · rfl
    · exact lookup_cons_ne h members
  | _ => rfl

theorem isObject_orInsert : (json.orInsert key value).IsObject ↔ json.IsObject := by
  cases json with
  | object members =>
    rw [orInsert]
    split
    · exact Iff.rfl
    · exact Iff.rfl
  | _ => exact Iff.rfl

end Json

end Vidarax.Base
