import Mathlib.Data.List.Basic

/-!
# Walking in a Tree

Relative movement in a tree whose nodes are named by the list of names that
leads to them from the root. A move stays, goes up or goes down by a name;
the root is its own parent. `target` says where a list of moves leads if
nothing is in the way, and `walk` performs them in a tree that may refuse
one.

What a list of moves comes to is its net: how many levels it climbs above
where it started, and the names it then goes down by. `target_eq_net` reads a
walk off its net, and `prefix_net_apply` decides from the net alone whether
the walk ends below where it started.

## Main definitions

* `Move`, `Move.apply`: One move and where it leads.
* `target`: Where a list of moves leads.
* `Net`, `Net.add`, `net`: Levels climbed and names gone down by.
* `Net.apply`: Where a net leads.
* `walk`: Performing moves, each with leave of the tree.

## Theorems

* `target_eq_net`: Where moves lead is where their net leads.
* `length_target_le`, `le_length_target`, `length_target_of_no_down`: How
  deep moves lead.
* `prefix_net_apply`: When a net ends below its start.
* `walk_ok`: A walk that succeeds ends at the target.
* `walk_append`: A walk in two parts.
-/

namespace HttpFileSharing

variable {ν ε : Type*}

/-- One move. -/
inductive Move (ν : Type*) where
  | here
  | up
  | down (name : ν)
  deriving DecidableEq, Repr

/-- Where one move leads from `loc`. The root is its own parent. -/
def Move.apply : Move ν → List ν → List ν
  | .here, loc => loc
  | .up, loc => loc.dropLast
  | .down name, loc => loc ++ [name]

/-- Where a list of moves leads from `loc`. -/
def target (loc : List ν) (ms : List (Move ν)) : List ν := ms.foldl (fun l m => m.apply l) loc

/-- How many levels a list of moves climbs above its start, and the names it
    goes down by from there. -/
structure Net (ν : Type*) where
  ups : Nat
  names : List ν
  deriving DecidableEq, Repr

/-- What one more move does to a net: going up takes back the last name, or
    climbs where there is none. -/
def Net.add : Net ν → Move ν → Net ν
  | n, .here => n
  | ⟨ups, []⟩, .up => ⟨ups + 1, []⟩
  | ⟨ups, x :: names⟩, .up => ⟨ups, (x :: names).dropLast⟩
  | ⟨ups, names⟩, .down name => ⟨ups, names ++ [name]⟩

/-- The net of a list of moves. -/
def net (ms : List (Move ν)) : Net ν := ms.foldl Net.add ⟨0, []⟩

/-- Where a net leads from `loc`. -/
def Net.apply (n : Net ν) (loc : List ν) : List ν := loc.take (loc.length - n.ups) ++ n.names

/-- Perform moves one after the other, each with leave of the tree. -/
def walk (enter : List ν → Move ν → Except ε Unit) (loc : List ν) :
    List (Move ν) → Except ε (List ν)
  | [] => .ok loc
  | m :: ms => match enter loc m with
    | .ok _ => walk enter (m.apply loc) ms
    | .error e => .error e

theorem Net.apply_add (n : Net ν) (m : Move ν) (loc : List ν) :
    (n.add m).apply loc = m.apply (n.apply loc) := by
  cases m with
  | here => rfl
  | up =>
      rcases n with ⟨ups, names⟩
      cases names with
      | nil =>
          -- With no name to take back, the climb is one level longer.
          simp only [Net.add, Net.apply, Move.apply, List.append_nil]
          rw [List.dropLast_eq_take, List.take_take, List.length_take]
          congr 1
          omega
      | cons x names =>
          simp only [Net.add, Net.apply, Move.apply]
          rw [List.dropLast_append_of_ne_nil (List.cons_ne_nil x names)]
  | down name =>
      simp only [Net.add, Net.apply, Move.apply, List.append_assoc]

theorem target_append (loc : List ν) (ms ns : List (Move ν)) :
    target loc (ms ++ ns) = target (target loc ms) ns :=
  List.foldl_append

/-- Where moves lead is where their net leads. -/
theorem target_eq_net (loc : List ν) (ms : List (Move ν)) :
    target loc ms = (net ms).apply loc := by
  -- The moves still to come act on the place the net so far leads to.
  have hgen : ∀ n : Net ν, target (n.apply loc) ms = (ms.foldl Net.add n).apply loc := by
    induction ms with
    | nil => exact fun n => rfl
    | cons m ms ih =>
        intro n
        rw [List.foldl_cons, ← ih (n.add m), n.apply_add]
        rfl
  have hstart : (⟨0, []⟩ : Net ν).apply loc = loc := by
    rw [Net.apply, Nat.sub_zero, List.take_length, List.append_nil]
  rw [net, ← hgen, hstart]

/-- Each move adds at most one level. -/
theorem length_target_le (ms : List (Move ν)) (loc : List ν) :
    (target loc ms).length ≤ loc.length + ms.length := by
  induction ms generalizing loc with
  | nil => exact Nat.le_refl _
  | cons m ms ih =>
      have hm : (m.apply loc).length ≤ loc.length + 1 := by
        cases m with
        | here => exact Nat.le_succ _
        | up =>
            rw [Move.apply, List.length_dropLast]
            omega
        | down name => exact Nat.le_of_eq List.length_append
      rw [target, List.foldl_cons, List.length_cons]
      exact Nat.le_trans (ih _) (by omega)

/-- Each move takes back at most one level. -/
theorem le_length_target (ms : List (Move ν)) (loc : List ν) :
    loc.length ≤ (target loc ms).length + ms.length := by
  induction ms generalizing loc with
  | nil => exact Nat.le_refl _
  | cons m ms ih =>
      have hm : loc.length ≤ (m.apply loc).length + 1 := by
        cases m with
        | here => exact Nat.le_succ _
        | up =>
            rw [Move.apply, List.length_dropLast]
            omega
        | down name =>
            rw [Move.apply, List.length_append]
            omega
      have hrest := ih (m.apply loc)
      rw [target, List.foldl_cons, List.length_cons]
      rw [target] at hrest
      omega

/-- Moves that never go down lead no deeper, and less deep if one goes up. -/
theorem length_target_of_no_down (ms : List (Move ν)) (loc : List ν)
    (hdown : ∀ name, Move.down name ∉ ms) :
    (target loc ms).length ≤ loc.length ∧
      (Move.up ∈ ms → loc ≠ [] → (target loc ms).length < loc.length) := by
  induction ms generalizing loc with
  | nil => exact ⟨Nat.le_refl _, fun h => absurd h List.not_mem_nil⟩
  | cons m ms ih =>
      have hrest := ih (m.apply loc) (fun name h => hdown name (List.mem_cons_of_mem _ h))
      rw [target, List.foldl_cons]
      rw [target] at hrest
      cases m with
      | here =>
          refine ⟨hrest.1, fun hup hne => hrest.2 ?_ hne⟩
          exact (List.mem_cons.mp hup).resolve_left (by simp only [reduceCtorEq,
            not_false_eq_true])
      | up =>
          have hlen : (Move.up.apply loc).length = loc.length - 1 := List.length_dropLast
          -- The level lost here is never won back.
          refine ⟨by omega, fun _ hne => ?_⟩
          have hpos := List.length_pos_iff.mpr hne
          omega
      | down name => exact absurd List.mem_cons_self (hdown name)

/-- From the root a net leads to its names. -/
theorem Net.apply_nil (n : Net ν) : n.apply [] = n.names := by
  rw [Net.apply, List.take_nil, List.nil_append]

/-- A net ends below its start when the names it goes down by begin with
    those it climbed out of. -/
theorem prefix_net_apply (n : Net ν) (loc : List ν) :
    loc <+: n.apply loc ↔ loc.drop (loc.length - n.ups) <+: n.names := by
  -- The part of `loc` that was not climbed out of is common to both sides.
  have hboth : loc.take (loc.length - n.ups) ++ loc.drop (loc.length - n.ups) <+: n.apply loc
      ↔ loc.drop (loc.length - n.ups) <+: n.names :=
    List.prefix_append_right_inj _
  rw [List.take_append_drop] at hboth
  exact hboth

/-- A walk that succeeds ends where the moves lead. -/
theorem walk_ok (enter : List ν → Move ν → Except ε Unit) (ms : List (Move ν))
    (loc loc' : List ν) (h : walk enter loc ms = .ok loc') : loc' = target loc ms := by
  induction ms generalizing loc with
  | nil => exact (Except.ok.inj h).symm
  | cons m ms ih =>
      rw [walk] at h
      split at h
      · exact ih _ h
      · exact absurd h (by simp only [reduceCtorEq, not_false_eq_true])

/-- A walk in two parts. -/
theorem walk_append (enter : List ν → Move ν → Except ε Unit) (ms ns : List (Move ν))
    (loc : List ν) :
    walk enter loc (ms ++ ns) = (walk enter loc ms).bind (fun l => walk enter l ns) := by
  induction ms generalizing loc with
  | nil => rfl
  | cons m ms ih =>
      rw [List.cons_append, walk, walk]
      cases enter loc m with
      | ok _ => exact ih _
      | error e => rfl

end HttpFileSharing
