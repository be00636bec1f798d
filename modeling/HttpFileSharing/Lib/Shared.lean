import Mathlib.Data.List.Nodup
import Mathlib.Logic.Function.Basic

/-!
# Shared Ownership

Objects that are destroyed with the last reference to them, each of which has
one resource from a common stock for as long as it lives. Making an object
takes the resource and one reference; copying a reference adds one; giving the
last one up destroys the object and puts its resource back, to be taken by the
next one.

Nothing stops a program from giving up a reference it does not have. The object
is then destroyed once more, and whoever has the resource by then loses it.
`Sound` is what a program keeps that copies and gives up only references it
has: an object lives exactly as long as it owns its resource, and is destroyed
once. Which references it has is the program's own account of its variables;
`Accounted` says that the account is right, and one rule for each operation says
what keeps it so.

## Main definitions

* `Shared`: The objects made so far, their references and their resources.
* `Shared.make`, `Shared.copy`, `Shared.release`: What a program does.
* `Shared.Sound`: Each living object owns its resource.
* `Shared.Accounted`: The program's account of its references is right.

## Theorems

* `Shared.sound_make`: Making an object from a resource nobody has.
* `Shared.sound_copy`, `Shared.sound_release`: Copying and giving up a
  reference to a living object.
* `Shared.Accounted.make`, `Shared.Accounted.copy`, `Shared.Accounted.release`:
  What each operation does to the account.
* `Shared.Accounted.owns`, `Shared.Accounted.owner_iff`,
  `Shared.Accounted.destroyed_iff`, `Shared.Accounted.count_destroyed`: What a
  right account says.
-/

namespace HttpFileSharing

/-- Objects, numbered in the order they were made, with resources `ρ`. -/
structure Shared (ρ : Type*) where
  /-- How many references there are. -/
  count : Nat → Nat
  /-- The resource an object was made with. -/
  resource : Nat → Option ρ
  /-- The object that has a resource. -/
  owner : ρ → Option Nat
  /-- How many objects were made. -/
  next : Nat
  /-- Every destruction so far, the last one first. -/
  destroyed : List Nat

namespace Shared

variable {ρ : Type*}

/-- Nothing made yet. -/
def empty : Shared ρ := ⟨fun _ => 0, fun _ => none, fun _ => none, 0, []⟩

/-- Copy a reference to `x`. -/
def copy (s : Shared ρ) (x : Nat) : Shared ρ :=
  { s with count := Function.update s.count x (s.count x + 1) }

/-- Each living object owns its resource, nobody else owns one, and the objects
    that live no more were destroyed once. -/
structure Sound (s : Shared ρ) : Prop where
  fresh : ∀ x, s.next ≤ x → s.count x = 0
  owns : ∀ x, s.count x ≠ 0 → ∃ r, s.resource x = some r ∧ s.owner r = some x
  owned : ∀ r x, s.owner r = some x → s.count x ≠ 0 ∧ s.resource x = some r
  gone : ∀ x, x ∈ s.destroyed ↔ x < s.next ∧ s.count x = 0
  once : s.destroyed.Nodup

@[simp] theorem next_copy (s : Shared ρ) (x : Nat) : (s.copy x).next = s.next := rfl

theorem count_copy (s : Shared ρ) (x y : Nat) :
    (s.copy x).count y = if y = x then s.count x + 1 else s.count y :=
  Function.update_apply _ _ _ _

theorem sound_empty : Sound (empty : Shared ρ) where
  fresh _ _ := rfl
  owns _ h := absurd rfl h
  owned _ _ h := absurd h (by simp only [empty, reduceCtorEq, not_false_eq_true])
  gone x := ⟨fun h => absurd h List.not_mem_nil, fun h => absurd h.1 (Nat.not_lt_zero x)⟩
  once := List.nodup_nil

namespace Sound

variable {s : Shared ρ}

/-- A living object is one of those made. -/
theorem lt_next (h : Sound s) {x : Nat} (hx : s.count x ≠ 0) : x < s.next := by
  by_contra hle
  exact hx (h.fresh x (Nat.le_of_not_lt hle))

end Sound

/-- Copying a reference to a living object. -/
theorem sound_copy {s : Shared ρ} (h : Sound s) (x : Nat) (hx : s.count x ≠ 0) :
    Sound (s.copy x) := by
  -- The objects that live are the same.
  have hlive : ∀ y, (s.copy x).count y = 0 ↔ s.count y = 0 := by
    intro y
    rw [count_copy]
    by_cases hy : y = x
    · rw [if_pos hy, hy]
      omega
    · rw [if_neg hy]
  refine ⟨fun y hy => (hlive y).mpr (h.fresh y hy), fun y hy => ?_, fun r y hr => ?_, fun y => ?_,
    h.once⟩
  · exact h.owns y (fun hz => hy ((hlive y).mpr hz))
  · rcases h.owned r y hr with ⟨hcount, hres⟩
    exact ⟨fun hz => hcount ((hlive y).mp hz), hres⟩
  · rw [hlive y]
    exact h.gone y

variable [DecidableEq ρ]

/-- Make an object with resource `r` and one reference to it. -/
def make (s : Shared ρ) (r : ρ) : Shared ρ where
  count := Function.update s.count s.next 1
  resource := Function.update s.resource s.next (some r)
  owner := Function.update s.owner r (some s.next)
  next := s.next + 1
  destroyed := s.destroyed

/-- What the destructor of `x` does to the owners: nobody has its resource. -/
def disown (s : Shared ρ) (x : Nat) : ρ → Option Nat :=
  match s.resource x with
  | some r => Function.update s.owner r none
  | none => s.owner

/-- Give up a reference to `x`, and destroy it with the last one. -/
def release (s : Shared ρ) (x : Nat) : Shared ρ :=
  if s.count x ≤ 1 then
    { s with count := Function.update s.count x 0
             owner := s.disown x
             destroyed := x :: s.destroyed }
  else { s with count := Function.update s.count x (s.count x - 1) }

@[simp] theorem next_release (s : Shared ρ) (x : Nat) : (s.release x).next = s.next := by
  unfold release
  split <;> rfl

theorem count_make (s : Shared ρ) (r : ρ) (y : Nat) :
    (s.make r).count y = if y = s.next then 1 else s.count y :=
  Function.update_apply _ _ _ _

theorem count_release (s : Shared ρ) (x y : Nat) :
    (s.release x).count y = if y = x then s.count x - 1 else s.count y := by
  unfold release
  by_cases hle : s.count x ≤ 1
  · rw [if_pos hle, Nat.sub_eq_zero_of_le hle]
    exact Function.update_apply _ _ _ _
  · rw [if_neg hle]
    exact Function.update_apply _ _ _ _

/-- Making an object from a resource nobody has. -/
theorem sound_make {s : Shared ρ} (h : Sound s) (r : ρ) (hfree : s.owner r = none) :
    Sound (s.make r) where
  fresh x hx := by
    change s.next + 1 ≤ x at hx
    rw [count_make, if_neg (by omega), h.fresh x (by omega)]
  owns x hx := by
    rw [count_make] at hx
    by_cases hnew : x = s.next
    · refine ⟨r, ?_, ?_⟩
      · rw [hnew]
        exact Function.update_self _ _ _
      · rw [hnew]
        exact Function.update_self _ _ _
    · rw [if_neg hnew] at hx
      rcases h.owns x hx with ⟨r', hres, howner⟩
      -- The resource of an older object is another one.
      have hne : r' ≠ r := by
        intro heq
        rw [heq, hfree] at howner
        exact absurd howner (by simp only [reduceCtorEq, not_false_eq_true])
      refine ⟨r', ?_, ?_⟩
      · exact (Function.update_of_ne hnew _ _).trans hres
      · exact (Function.update_of_ne hne _ _).trans howner
  owned r' x howner := by
    change Function.update s.owner r (some s.next) r' = some x at howner
    by_cases hr : r' = r
    · rw [hr, Function.update_self, Option.some.injEq] at howner
      rw [← howner, hr, count_make, if_pos rfl]
      exact ⟨Nat.one_ne_zero, Function.update_self _ _ _⟩
    · rw [Function.update_of_ne hr] at howner
      rcases h.owned r' x howner with ⟨hx, hres⟩
      have hold : x ≠ s.next := Nat.ne_of_lt (h.lt_next hx)
      rw [count_make, if_neg hold]
      exact ⟨hx, (Function.update_of_ne hold _ _).trans hres⟩
  gone x := by
    change x ∈ s.destroyed ↔ x < s.next + 1 ∧ _
    rw [count_make, h.gone x]
    by_cases hnew : x = s.next
    · rw [if_pos hnew]
      omega
    · rw [if_neg hnew]
      omega
  once := h.once

/-- Giving up the last reference. -/
theorem sound_destroy {s : Shared ρ} (h : Sound s) (x : Nat) (hx : s.count x = 1) :
    Sound (s.release x) := by
  have hpos : s.count x ≠ 0 := by omega
  rcases h.owns x hpos with ⟨r, hres, howner⟩
  have hrel : s.release x = { s with
      count := Function.update s.count x 0
      owner := Function.update s.owner r none
      destroyed := x :: s.destroyed } := by
    rw [release, if_pos (by omega), disown, hres]
  have hcount : ∀ y, (s.release x).count y = if y = x then 0 else s.count y := by
    intro y
    rw [count_release, hx]
  refine ⟨fun y hy => ?_, fun y hy => ?_, fun r' y hr' => ?_, fun y => ?_, ?_⟩
  · rw [next_release] at hy
    rw [hcount, h.fresh y hy, ite_self]
  · rw [hcount] at hy
    have hyx : y ≠ x := fun heq => hy (if_pos heq)
    rw [if_neg hyx] at hy
    rcases h.owns y hy with ⟨r', hres', howner'⟩
    -- No two living objects have one resource.
    have hne : r' ≠ r := by
      intro heq
      rw [heq, howner, Option.some.injEq] at howner'
      exact hyx howner'.symm
    rw [hrel]
    exact ⟨r', hres', (Function.update_of_ne hne _ _).trans howner'⟩
  · rw [hrel] at hr'
    change Function.update s.owner r none r' = some y at hr'
    have hne : r' ≠ r := by
      intro heq
      rw [heq, Function.update_self] at hr'
      exact absurd hr' (by simp only [reduceCtorEq, not_false_eq_true])
    rw [Function.update_of_ne hne] at hr'
    rcases h.owned r' y hr' with ⟨hy, hres'⟩
    have hyx : y ≠ x := by
      intro heq
      rw [heq, hres, Option.some.injEq] at hres'
      exact hne hres'.symm
    rw [hcount, if_neg hyx, hrel]
    exact ⟨hy, hres'⟩
  · rw [hcount, next_release, hrel]
    change y ∈ x :: s.destroyed ↔ _
    rw [List.mem_cons, h.gone y]
    by_cases hyx : y = x
    · have hlt := h.lt_next hpos
      rw [if_pos hyx, hyx]
      exact ⟨fun _ => ⟨hlt, rfl⟩, fun _ => Or.inl rfl⟩
    · rw [if_neg hyx]
      exact ⟨fun hor => hor.resolve_left hyx, Or.inr⟩
  · rw [hrel]
    exact List.nodup_cons.mpr ⟨fun hmem => hpos ((h.gone x).mp hmem).2, h.once⟩

/-- Giving up a reference to a living object. -/
theorem sound_release {s : Shared ρ} (h : Sound s) (x : Nat) (hx : s.count x ≠ 0) :
    Sound (s.release x) := by
  by_cases hone : s.count x = 1
  · exact sound_destroy h x hone
  -- With another reference left, the objects that live are the same.
  have hrel : s.release x = { s with count := Function.update s.count x (s.count x - 1) } := by
    rw [release, if_neg (by omega)]
  have hlive : ∀ y, (s.release x).count y = 0 ↔ s.count y = 0 := by
    intro y
    rw [count_release]
    by_cases hy : y = x
    · rw [if_pos hy, hy]
      omega
    · rw [if_neg hy]
  refine ⟨fun y hy => ?_, fun y hy => ?_, fun r y hr => ?_, fun y => ?_, ?_⟩
  · rw [next_release] at hy
    exact (hlive y).mpr (h.fresh y hy)
  · have hy' : s.count y ≠ 0 := fun hz => hy ((hlive y).mpr hz)
    rw [hrel]
    exact h.owns y hy'
  · rw [hrel] at hr
    rcases h.owned r y hr with ⟨hcount, hres⟩
    refine ⟨fun hz => hcount ((hlive y).mp hz), ?_⟩
    rw [hrel]
    exact hres
  · rw [hlive y, next_release, hrel]
    exact h.gone y
  · rw [hrel]
    exact h.once

/-- The objects are sound, and `held x` is the number of references to `x`. -/
structure Accounted (s : Shared ρ) (held : Nat → Nat) : Prop where
  sound : Sound s
  count_eq : ∀ x, s.count x = held x

namespace Accounted

variable {s : Shared ρ} {held held' : Nat → Nat}

/-- Making an object from a resource nobody has adds one reference to it. -/
theorem make (h : Accounted s held) (r : ρ) (hfree : s.owner r = none)
    (hheld : ∀ y, held' y = held y + if y = s.next then 1 else 0) :
    Accounted (s.make r) held' := by
  refine ⟨sound_make h.sound r hfree, fun y => ?_⟩
  rw [count_make, hheld y, ← h.count_eq y]
  by_cases hy : y = s.next
  · rw [if_pos hy, if_pos hy, hy, h.sound.fresh s.next (Nat.le_refl _)]
  · rw [if_neg hy, if_neg hy, Nat.add_zero]

omit [DecidableEq ρ] in
/-- Copying a reference adds one. -/
theorem copy (h : Accounted s held) (x : Nat) (hx : held x ≠ 0)
    (hheld : ∀ y, held' y = held y + if y = x then 1 else 0) :
    Accounted (s.copy x) held' := by
  refine ⟨sound_copy h.sound x (by rwa [h.count_eq x]), fun y => ?_⟩
  rw [count_copy, hheld y, ← h.count_eq y]
  by_cases hy : y = x
  · rw [if_pos hy, if_pos hy, hy]
  · rw [if_neg hy, if_neg hy, Nat.add_zero]

/-- Giving a reference up takes one away. -/
theorem release (h : Accounted s held) (x : Nat) (hx : held x ≠ 0)
    (hheld : ∀ y, held' y + (if y = x then 1 else 0) = held y) :
    Accounted (s.release x) held' := by
  refine ⟨sound_release h.sound x (by rwa [h.count_eq x]), fun y => ?_⟩
  have hy := hheld y
  rw [count_release, h.count_eq x, h.count_eq y]
  by_cases hyx : y = x
  · rw [if_pos hyx, ← hyx]
    rw [if_pos hyx] at hy
    omega
  · rw [if_neg hyx]
    rw [if_neg hyx] at hy
    omega

omit [DecidableEq ρ] in
/-- An object with a reference to it has its resource. -/
theorem owns (h : Accounted s held) (x : Nat) (hx : held x ≠ 0) :
    ∃ r, s.resource x = some r ∧ s.owner r = some x :=
  h.sound.owns x (by rwa [h.count_eq x])

omit [DecidableEq ρ] in
/-- The resources taken are those of the objects with a reference to them. -/
theorem owner_iff (h : Accounted s held) (r : ρ) (x : Nat) :
    s.owner r = some x ↔ held x ≠ 0 ∧ s.resource x = some r := by
  constructor
  · rw [← h.count_eq x]
    exact h.sound.owned r x
  · rintro ⟨hx, hr⟩
    rcases h.owns x hx with ⟨r', hres, howner⟩
    rw [hr, Option.some.injEq] at hres
    exact hres ▸ howner

omit [DecidableEq ρ] in
/-- The objects destroyed so far are those made with no reference left. -/
theorem destroyed_iff (h : Accounted s held) (x : Nat) :
    x ∈ s.destroyed ↔ x < s.next ∧ held x = 0 := by
  rw [h.sound.gone x, h.count_eq x]

omit [DecidableEq ρ] in
/-- Each of them was destroyed once. -/
theorem count_destroyed (h : Accounted s held) (x : Nat) (hx : x < s.next) :
    s.destroyed.count x = if held x = 0 then 1 else 0 := by
  by_cases hzero : held x = 0
  · rw [if_pos hzero]
    exact List.count_eq_one_of_mem h.sound.once ((h.destroyed_iff x).mpr ⟨hx, hzero⟩)
  · rw [if_neg hzero]
    exact List.count_eq_zero_of_not_mem (fun hmem => hzero ((h.destroyed_iff x).mp hmem).2)

end Accounted

end Shared

end HttpFileSharing
