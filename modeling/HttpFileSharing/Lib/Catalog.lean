import HttpFileSharing.Lib.StdMap

/-!
# Catalogs That Grow

A catalog is a sequence of entries, each a key with a sequence of items. It
grows by items behind those of an entry and by entries behind the others, so
whatever it had is still there, unchanged and in the same order. `Extends` says
that one catalog has grown out of another, entry by entry.

## Main definitions

* `Catalog.Extends`: What was there is still there.
* `Catalog.addTo`: Items behind those of one key.

## Theorems

* `Catalog.extends_refl`, `Catalog.Extends.trans`: Growing in steps.
* `Catalog.extends_append`, `Catalog.extends_addTo`: The two ways of growing.
* `Catalog.lookup_addTo`, `Catalog.keys_addTo`, `Catalog.addTo_addTo`: What is
  found after items were added.
* `Catalog.lookup_append_single`: What is found with a new entry.
* `Catalog.lookup_eq_none_iff`: What is not found.
-/

namespace HttpFileSharing

namespace Catalog

variable {κ β : Type*}

/-- Every entry of the first catalog is in the second at the same place and
    under the same key, and begins with the same items. -/
def Extends : List (κ × List β) → List (κ × List β) → Prop
  | [], _ => True
  | r :: old, r' :: new => r'.1 = r.1 ∧ r.2 <+: r'.2 ∧ Extends old new
  | _ :: _, [] => False

theorem extends_refl (rows : List (κ × List β)) : Extends rows rows := by
  induction rows with
  | nil => exact trivial
  | cons r rows ih => exact ⟨rfl, List.prefix_refl _, ih⟩

theorem Extends.trans {a b c : List (κ × List β)} (hab : Extends a b) (hbc : Extends b c) :
    Extends a c := by
  induction a generalizing b c with
  | nil => exact trivial
  | cons r a ih =>
      cases b with
      | nil => exact absurd hab id
      | cons s b =>
          cases c with
          | nil => exact absurd hbc id
          | cons t c =>
              rcases hab with ⟨hkey, hitems, hrest⟩
              rcases hbc with ⟨hkey', hitems', hrest'⟩
              exact ⟨hkey'.trans hkey, hitems.trans hitems', ih hrest hrest'⟩

/-- Entries behind the others. -/
theorem extends_append (rows more : List (κ × List β)) : Extends rows (rows ++ more) := by
  induction rows with
  | nil => exact trivial
  | cons r rows ih => exact ⟨rfl, List.prefix_refl _, ih⟩

variable [DecidableEq κ]

/-- Put `items` behind those of `key`. -/
def addTo (key : κ) (items : List β) (rows : List (κ × List β)) : List (κ × List β) :=
  rows.map (fun r => if r.1 = key then (r.1, r.2 ++ items) else r)

theorem keys_addTo (key : κ) (items : List β) (rows : List (κ × List β)) :
    (addTo key items rows).map Prod.fst = rows.map Prod.fst := by
  rw [addTo, List.map_map]
  refine List.map_congr_left (fun r _ => ?_)
  rw [Function.comp_apply]
  split <;> rfl

theorem extends_addTo (key : κ) (items : List β) (rows : List (κ × List β)) :
    Extends rows (addTo key items rows) := by
  induction rows with
  | nil => exact trivial
  | cons r rows ih =>
      rw [addTo, List.map_cons]
      refine ⟨?_, ?_, ih⟩
      · split <;> rfl
      · split
        · exact List.prefix_append _ _
        · exact List.prefix_refl _

theorem addTo_nil (key : κ) (rows : List (κ × List β)) : addTo key [] rows = rows := by
  induction rows with
  | nil => rfl
  | cons r rows ih =>
      rw [addTo] at ih
      rw [addTo, List.map_cons, ih, List.append_nil]
      split <;> rfl

theorem addTo_addTo (key : κ) (items more : List β) (rows : List (κ × List β)) :
    addTo key more (addTo key items rows) = addTo key (items ++ more) rows := by
  rw [addTo, addTo, addTo, List.map_map]
  refine List.map_congr_left (fun r _ => ?_)
  rw [Function.comp_apply]
  by_cases hr : r.1 = key
  · rw [if_pos hr, if_pos hr, if_pos hr, List.append_assoc]
  · rw [if_neg hr, if_neg hr, if_neg hr]

variable [BEq κ] [LawfulBEq κ]

theorem lookup_addTo (key a : κ) (items : List β) (rows : List (κ × List β)) :
    (addTo key items rows).lookup a
      = if a = key then (rows.lookup a).map (fun l => l ++ items) else rows.lookup a := by
  induction rows with
  | nil => simp only [addTo, List.map_nil, List.lookup_nil, Option.map_none, ite_self]
  | cons r rows ih =>
      rw [addTo] at ih
      rw [addTo, List.map_cons, List.lookup_cons, List.lookup_cons, ih]
      by_cases hak : a = key
      · rw [if_pos hak, if_pos hak]
        by_cases hr : r.1 = key
        · simp only [hr, hak, if_true, beq_self_eq_true, Option.map_some]
        · have har : a ≠ r.1 := fun h => hr (h.symm.trans hak)
          simp only [if_neg hr, beq_eq_false_iff_ne.mpr har]
      · rw [if_neg hak, if_neg hak]
        by_cases hr : r.1 = key
        · have har : a ≠ r.1 := fun h => hak (h.trans hr)
          simp only [if_pos hr, beq_eq_false_iff_ne.mpr har]
        · rw [if_neg hr]

/-- A new entry behind the others is found under its key, and nothing else
    changes. -/
theorem lookup_append_single (rows : List (κ × List β)) (key a : κ) (items : List β)
    (hnew : key ∉ rows.map Prod.fst) :
    (rows ++ [(key, items)]).lookup a = if a = key then some items else rows.lookup a := by
  induction rows with
  | nil =>
      rw [List.nil_append, List.lookup_cons, List.lookup_nil]
      by_cases hak : a = key
      · simp only [hak, beq_self_eq_true, if_true]
      · simp only [beq_eq_false_iff_ne.mpr hak, if_neg hak]
  | cons r rows ih =>
      rw [List.map_cons, List.mem_cons, not_or] at hnew
      rw [List.cons_append, List.lookup_cons, List.lookup_cons, ih hnew.2]
      by_cases hak : a = key
      · have har : a ≠ r.1 := fun h => hnew.1 (hak.symm.trans h)
        simp only [beq_eq_false_iff_ne.mpr har]
      · rw [if_neg hak, if_neg hak]

theorem lookup_eq_none_iff (rows : List (κ × List β)) (key : κ) :
    rows.lookup key = none ↔ key ∉ rows.map Prod.fst := by
  induction rows with
  | nil => simp only [List.lookup_nil, List.map_nil, List.not_mem_nil, not_false_eq_true]
  | cons r rows ih =>
      rw [List.lookup_cons, List.map_cons, List.mem_cons, not_or]
      by_cases hkey : key = r.1
      · simp only [hkey, beq_self_eq_true, reduceCtorEq, not_true, false_and]
      · simp only [beq_eq_false_iff_ne.mpr hkey, ih, hkey, not_false_eq_true, true_and]

end Catalog

end HttpFileSharing
