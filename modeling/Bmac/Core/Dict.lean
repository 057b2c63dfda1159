import Bmac.Core.Table
import Mathlib.Data.String.Basic

/-!
# Maps with text keys

A `BTreeMap<String, _>`: its entries in the order of their keys, each key once.
-/

namespace Bmac.Core

abbrev Dict (α : Type) := List (String × α)

namespace Dict

variable {α : Type}

def get? (d : Dict α) (key : String) : Option α := d.lookup key

def insert (d : Dict α) (key : String) (value : α) : Dict α :=
  match d with
  | [] => [(key, value)]
  | (k, v) :: rest =>
    if key < k then (key, value) :: (k, v) :: rest
    else if key = k then (key, value) :: rest
    else (k, v) :: insert rest key value

theorem get?_eq (d : Dict α) (key : String) : d.get? key = Table.get? d key := rfl

theorem insert_eq (d : Dict α) (key : String) (value : α) :
    d.insert key value = Table.insert d key value := by
  induction d with
  | nil => rfl
  | cons entry rest ih => rw [insert, Table.insert, ih]

theorem get?_insert (d : Dict α) (key : String) (value : α) :
    (d.insert key value).get? key = some value := by
  rw [get?_eq, insert_eq, Table.get?_insert, if_pos rfl]

theorem get?_cons (k : String) (v : α) (d : Dict α) (key : String) :
    get? ((k, v) :: d) key = if key = k then some v else get? d key :=
  Table.get?_cons k v d key

variable {key : String}

theorem get?_insert_of_ne (d : Dict α) {key' : String} (value : α) (h : key' ≠ key) :
    (d.insert key value).get? key' = d.get? key' := by
  rw [get?_eq, insert_eq, Table.get?_insert, if_neg h, get?_eq]

theorem mem_of_get? {d : Dict α} {value : α} (h : d.get? key = some value) : (key, value) ∈ d :=
  Table.mem_of_get? h

theorem insert_ne_nil (d : Dict α) (key : String) (value : α) : d.insert key value ≠ [] := by
  intro h
  have hget := get?_insert d key value
  rw [h] at hget
  cases hget

/-- The keys are in order, each once. -/
def Sorted (d : Dict α) : Prop := d.Pairwise (·.1 < ·.1)

theorem sorted_iff {d : Dict α} : d.Sorted ↔ Table.Sorted d := List.pairwise_map.symm

theorem mem_insert {d : Dict α} {value : α} {e : String × α} (h : e ∈ d.insert key value) :
    e = (key, value) ∨ e ∈ d := by
  rw [insert_eq] at h
  exact Table.mem_insert h

theorem Sorted.insert {d : Dict α} (h : d.Sorted) (key : String) (value : α) :
    (d.insert key value).Sorted := by
  rw [sorted_iff, insert_eq]
  exact (sorted_iff.mp h).insert key value

theorem get?_of_mem {d : Dict α} (h : d.Sorted) {value : α} (hmem : (key, value) ∈ d) :
    d.get? key = some value :=
  Table.get?_of_mem (sorted_iff.mp h) hmem

end Dict

end Bmac.Core
