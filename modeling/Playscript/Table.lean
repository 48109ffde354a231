/-!
# Tables

Keyed values in the order in which their keys first came. A key that is put again keeps its place
and takes the new value, so a table has one value for each key.

* `find?_put_self`, `find?_put_of_ne`: what a look-up finds after a put.
* `keys_put`, `length_put`: a put adds its key at the end, or changes no key.
* `nodup_keys_put`, `find?_of_mem`: no key comes twice, so a look-up finds what the table holds.
-/

namespace Playscript

abbrev Table (κ β : Type) := List (κ × β)

namespace Table

variable {κ β : Type} [DecidableEq κ]

def find? : Table κ β → κ → Option β
  | [], _ => none
  | (k, v) :: r, key => if k = key then some v else find? r key

def put : Table κ β → κ → β → Table κ β
  | [], key, value => [(key, value)]
  | (k, v) :: r, key, value => if k = key then (k, value) :: r else (k, v) :: put r key value

def keys (t : Table κ β) : List κ := t.map Prod.fst

/-- The table that is built by putting the pairs in turn. -/
def ofPairs (pairs : List (κ × β)) : Table κ β :=
  pairs.foldl (fun t p => put t p.1 p.2) []

theorem find?_put_self (t : Table κ β) (key : κ) (value : β) :
    find? (put t key value) key = some value := by
  induction t with
  | nil => simp [put, find?]
  | cons p r ih => by_cases h : p.1 = key <;> simp [put, find?, h, ih]

theorem find?_put_of_ne (t : Table κ β) {key other : κ} (h : other ≠ key) (value : β) :
    find? (put t key value) other = find? t other := by
  induction t with
  | nil => simp [put, find?, Ne.symm h]
  | cons p r ih =>
    by_cases hk : p.1 = key
    · have : p.1 ≠ other := fun e => h (e.symm.trans hk)
      simp [put, find?, hk, Ne.symm h]
    · simp only [put, if_neg hk, find?, ih]

theorem find?_eq_none_iff (t : Table κ β) (key : κ) : find? t key = none ↔ key ∉ keys t := by
  induction t with
  | nil => simp [find?, keys]
  | cons p r ih =>
    by_cases h : p.1 = key
    · simp [find?, keys, h]
    · simp only [keys] at ih
      simp [find?, keys, h, ih, Ne.symm h]

theorem keys_put (t : Table κ β) (key : κ) (value : β) :
    keys (put t key value) = if key ∈ keys t then keys t else keys t ++ [key] := by
  induction t with
  | nil => simp [put, keys]
  | cons p r ih =>
    by_cases h : p.1 = key
    · simp [put, keys, h]
    · simp only [keys] at ih
      simp only [put, keys, h, if_false, List.map_cons, ih, List.mem_cons, Ne.symm h, false_or]
      by_cases hm : key ∈ List.map Prod.fst r <;> simp [hm]

theorem length_put (t : Table κ β) (key : κ) (value : β) :
    (put t key value).length = if key ∈ keys t then t.length else t.length + 1 := by
  have hlength := congrArg List.length (keys_put t key value)
  rw [keys, List.length_map] at hlength
  rw [hlength]
  split
  · rw [keys, List.length_map]
  · rw [List.length_append, keys, List.length_map, List.length_singleton]

theorem mem_keys_put (t : Table κ β) (key other : κ) (value : β) :
    other ∈ keys (put t key value) ↔ other ∈ keys t ∨ other = key := by
  rw [keys_put]
  split
  · rename_i h
    exact ⟨.inl, fun h' => h'.elim id fun e => e ▸ h⟩
  · simp

theorem nodup_keys_put {t : Table κ β} (h : (keys t).Nodup) (key : κ) (value : β) :
    (keys (put t key value)).Nodup := by
  rw [keys_put]
  split
  · exact h
  · rename_i hk
    rw [List.nodup_append]
    refine ⟨h, by simp, ?_⟩
    intro a ha b hb
    obtain rfl : b = key := List.mem_singleton.1 hb
    exact fun e => hk (e ▸ ha)

theorem find?_of_mem {t : Table κ β} (h : (keys t).Nodup) {key : κ} {value : β}
    (hm : (key, value) ∈ t) : find? t key = some value := by
  induction t with
  | nil => cases hm
  | cons p r ih =>
    obtain ⟨hp, hr⟩ := List.nodup_cons.1 h
    rcases List.mem_cons.1 hm with rfl | hm
    · simp [find?]
    · have hne : p.1 ≠ key := by
        intro e
        exact hp (e ▸ List.mem_map_of_mem hm)
      rw [find?, if_neg hne]
      exact ih hr hm

end Table

end Playscript
