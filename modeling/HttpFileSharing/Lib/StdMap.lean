import Mathlib.Data.Finmap

/-!
# Ordered Maps and Keyed Rows

Two ways a program keeps values under keys. A `std::map` is a finite map
whose `insert` and `emplace` do nothing when the key is there already, so the
first value given for a key stays. A table is a list of rows in which a key
is found by searching, and is rewritten in place.

The map is Mathlib's `Finmap`, whose own `insert` overwrites; `emplace` is
the other behaviour. What a sequence of emplacements leaves behind is the
first value of each key, which `lookup_foldl_emplace` states as a search.

## Main definitions

* `StdMap`: A finite map from keys to values.
* `StdMap.emplace`: Insertion that keeps an existing value.
* `Rows.update`: Rewriting the value of a key in every row that has it.

## Theorems

* `StdMap.lookup_insert_eq`, `StdMap.lookup_emplace`,
  `StdMap.lookup_emplace_new`: What a search finds after one insertion.
* `StdMap.lookup_foldl_emplace`: What it finds after many.
* `Rows.find?_eq_lookup`: A search by key finds the first row of that key.
* `Rows.lookup_eq_some_iff_mem`: With distinct keys a search finds exactly
  the rows.
* `Rows.lookup_perm`: Rows in another order.
* `Rows.lookup_update`: What a search finds after an update.
* `Rows.keys_update`: An update keeps the keys.
-/

namespace HttpFileSharing

/-- A `std::map` from `κ` to `ν`. -/
abbrev StdMap (κ ν : Type*) := Finmap (fun _ : κ => ν)

namespace StdMap

variable {κ ν : Type*} [DecidableEq κ]

/-- `std::map::emplace` and `std::map::insert`: a key already present keeps
    its value. -/
def emplace (m : StdMap κ ν) (k : κ) (v : ν) : StdMap κ ν :=
  if k ∈ m then m else Finmap.insert k v m

theorem lookup_insert_eq (m : StdMap κ ν) (k a : κ) (v : ν) :
    Finmap.lookup a (Finmap.insert k v m) = if a = k then some v else Finmap.lookup a m := by
  by_cases hak : a = k
  · rw [if_pos hak, hak, Finmap.lookup_insert]
  · rw [if_neg hak, Finmap.lookup_insert_of_ne _ hak]

theorem lookup_emplace (m : StdMap κ ν) (k a : κ) (v : ν) :
    Finmap.lookup a (emplace m k v)
      = (Finmap.lookup a m).or (if a = k then some v else none) := by
  unfold emplace
  by_cases hk : k ∈ m
  · rw [if_pos hk]
    by_cases hak : a = k
    · -- The key keeps the value it has.
      rcases Finmap.mem_iff.mp hk with ⟨w, hw⟩
      rw [hak, hw, Option.some_or]
    · rw [if_neg hak, Option.or_none]
  · rw [if_neg hk, lookup_insert_eq]
    by_cases hak : a = k
    · rw [if_pos hak, if_pos hak, hak, Finmap.lookup_eq_none.mpr hk, Option.none_or]
    · rw [if_neg hak, if_neg hak, Option.or_none]

/-- Emplacing a key that is new. -/
theorem lookup_emplace_new (m : StdMap κ ν) (k a : κ) (v : ν) (h : Finmap.lookup k m = none) :
    Finmap.lookup a (emplace m k v) = if a = k then some v else Finmap.lookup a m := by
  rw [emplace, if_neg (Finmap.lookup_eq_none.mp h), lookup_insert_eq]

/-- Emplacing one pair after the other: the map's own value if it had one,
    else the value of the first pair with that key. -/
theorem lookup_foldl_emplace {β : Type*} (xs : List β) (key : β → κ) (val : β → ν)
    (m : StdMap κ ν) (a : κ) :
    Finmap.lookup a (xs.foldl (fun m x => emplace m (key x) (val x)) m)
      = (Finmap.lookup a m).or ((xs.find? (fun x => key x = a)).map val) := by
  induction xs generalizing m with
  | nil => rw [List.foldl_nil, List.find?_nil, Option.map_none, Option.or_none]
  | cons x xs ih =>
      rw [List.foldl_cons, ih, lookup_emplace, Option.or_assoc, List.find?_cons]
      -- What is left is the first pair, behind the map's own value.
      congr 1
      by_cases hax : a = key x
      · rw [if_pos hax, decide_eq_true hax.symm, Option.some_or, Option.map_some]
      · rw [if_neg hax, decide_eq_false (fun h => hax h.symm), Option.none_or]

end StdMap

namespace Rows

variable {κ ν : Type*} [DecidableEq κ]

/-- Rewrite the value of `k` in every row that has that key. -/
def update (rows : List (κ × ν)) (k : κ) (v : ν) : List (κ × ν) :=
  rows.map (fun r => if r.1 = k then (k, v) else r)

theorem keys_update (rows : List (κ × ν)) (k : κ) (v : ν) :
    (update rows k v).map Prod.fst = rows.map Prod.fst := by
  rw [update, List.map_map]
  refine List.map_congr_left (fun r _ => ?_)
  rw [Function.comp_apply]
  by_cases hr : r.1 = k
  · rw [if_pos hr, hr]
  · rw [if_neg hr]

theorem lookup_update (rows : List (κ × ν)) (k a : κ) (v : ν) :
    (update rows k v).lookup a
      = if a = k then (rows.lookup a).map (fun _ => v) else rows.lookup a := by
  induction rows with
  | nil =>
      simp only [update, List.map_nil, List.lookup_nil, Option.map_none, ite_self]
  | cons r rows ih =>
      rw [update, List.map_cons, List.lookup_cons, List.lookup_cons]
      rw [update] at ih
      -- Only a row with the key is rewritten, and it keeps the key.
      by_cases hr : r.1 = k
      · rw [if_pos hr]
        by_cases hak : a = k
        · simp only [hak, hr, beq_self_eq_true, if_true, Option.map_some]
        · simp only [beq_eq_false_iff_ne.mpr hak, hr, if_neg hak] at ih ⊢
          exact ih
      · rw [if_neg hr]
        by_cases har : a = r.1
        · have hak : a ≠ k := fun h => hr (har ▸ h)
          simp only [har, beq_self_eq_true, if_neg hr]
        · simp only [beq_eq_false_iff_ne.mpr har]
          exact ih

/-- Searching by key is finding the first row with that key. -/
theorem find?_eq_lookup (rows : List (κ × ν)) (a : κ) :
    (rows.find? (fun r => r.1 = a)).map Prod.snd = rows.lookup a := by
  induction rows with
  | nil => rfl
  | cons r rows ih =>
      rw [List.find?_cons, List.lookup_cons]
      by_cases har : a = r.1
      · rw [decide_eq_true har.symm, har, beq_self_eq_true, Option.map_some]
      · rw [decide_eq_false (fun h => har h.symm), beq_eq_false_iff_ne.mpr har]
        exact ih

omit [DecidableEq κ] in
/-- With distinct keys, searching for a key finds exactly its row. -/
theorem lookup_eq_some_iff_mem [BEq κ] [LawfulBEq κ] (rows : List (κ × ν))
    (hd : (rows.map Prod.fst).Nodup) (a : κ) (v : ν) :
    rows.lookup a = some v ↔ (a, v) ∈ rows := by
  induction rows with
  | nil => simp only [List.lookup_nil, reduceCtorEq, List.not_mem_nil]
  | cons r rows ih =>
      rw [List.map_cons, List.nodup_cons] at hd
      rw [List.lookup_cons, List.mem_cons]
      by_cases har : a = r.1
      · rw [har, beq_self_eq_true]
        constructor
        · intro h
          rw [Option.some.injEq] at h
          exact Or.inl (Prod.ext rfl h.symm)
        · rintro (h | h)
          · rw [← h]
          · -- A second row with the same key is ruled out.
            exact absurd (List.mem_map.mpr ⟨_, h, rfl⟩) hd.1
      · rw [beq_eq_false_iff_ne.mpr har]
        rw [ih hd.2]
        constructor
        · exact Or.inr
        · rintro (h | h)
          · exact absurd (congrArg Prod.fst h) har
          · exact h

omit [DecidableEq κ] in
/-- With distinct keys the order of the rows does not matter. -/
theorem lookup_perm [BEq κ] [LawfulBEq κ] (rows rows' : List (κ × ν)) (h : rows'.Perm rows)
    (hd : (rows.map Prod.fst).Nodup) (a : κ) : rows'.lookup a = rows.lookup a := by
  have hd' : (rows'.map Prod.fst).Nodup := (h.map Prod.fst).nodup_iff.mpr hd
  refine Option.ext (fun v => ?_)
  rw [lookup_eq_some_iff_mem rows' hd', lookup_eq_some_iff_mem rows hd, h.mem_iff]

end Rows

end HttpFileSharing
