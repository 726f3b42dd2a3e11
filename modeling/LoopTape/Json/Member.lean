import LoopTape.Json.Basic

/-! Fields of records.

A record is written as an object, which holds its fields by name, or as an array, which holds them in
order. Its readers end because a field is smaller than its record.
-/

set_option autoImplicit false

namespace LoopTape.Json

theorem sizeOf_lt_of_lookup {name : String} {members : List (String × Json)} {value : Json}
    (found : members.lookup name = some value) : sizeOf value < sizeOf members := by
  induction members with
  | nil => simp at found
  | cons member rest ih =>
    obtain ⟨key, held⟩ := member
    rw [List.lookup_cons] at found
    split at found
    · cases Option.some.inj found
      simp
      omega
    · have := ih found
      simp
      omega

def memberOrNull (name : String) (members : List (String × Json)) : Json :=
  (members.lookup name).getD .null

theorem sizeOf_memberOrNull_lt (name : String) (members : List (String × Json)) :
    sizeOf (memberOrNull name members) < sizeOf (Json.obj members) := by
  unfold memberOrNull
  cases found : members.lookup name with
  | none =>
    have : 0 < sizeOf members := by
      cases members with
      | nil => exact Nat.one_pos
      | cons member rest => rw [List.cons.sizeOf_spec]; omega
    simp only [Option.getD_none, null.sizeOf_spec, obj.sizeOf_spec]
    omega
  | some value =>
    have := sizeOf_lt_of_lookup found
    simp
    omega

/-- A part of a value: what it is, and that it is smaller. -/
abbrev Part (json : Json) := { value : Json // sizeOf value < sizeOf json }

/-- The fields of a record, in the order of their names. An object may have more members, and one that
is missing means the same as null; an array has an item for each field and no more. -/
def fields (names : List String) (json : Json) : Option (List (Part json)) :=
  match json with
  | .obj members =>
    some (names.map fun name => ⟨memberOrNull name members, sizeOf_memberOrNull_lt name members⟩)
  | .arr items =>
    if items.length = names.length then
      some (items.attach.map fun ⟨item, held⟩ =>
        ⟨item, by have := List.sizeOf_lt_of_mem held; simp; omega⟩)
    else none
  | _ => none

def orNull? {α : Type} (read : Json → Option α) : Json → Option (Option α)
  | .null => some none
  | value => (read value).map some

def text? : Json → Option String
  | .str value => some value
  | _ => none

def nat? (bound : Nat) : Json → Option Nat
  | .int value => if 0 ≤ value ∧ value < bound then some value.toNat else none
  | _ => none

end LoopTape.Json
