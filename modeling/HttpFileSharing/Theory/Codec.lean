import HttpFileSharing.Core.HtmlRsp

/-!
# The Space Codec

How names get into links and out of them again. A link has `%20` for each space
of a name, and a file is looked for with each `%20` of the URI turned back into
a space. A slash is in neither, so a path can be taken apart before or after.

Encoding first changes nothing about what is decoded: every `%20` that the
encoding puts in is decoded to the space it was put for, and it makes no other
`%20`, since what it puts in begins with the percent sign.

## Theorems

* `makeHttpFriendly_cons`, `cleanFilename_escape`, `cleanFilename_other`: The
  two, one character at a time.
* `makeHttpFriendly_eq_self_iff`: What the encoding leaves alone.
* `cleanFilename_makeHttpFriendly`: Decoding what was encoded.
* `cleanFilename_makeHttpFriendly_iff`, `makeHttpFriendly_cleanFilename`,
  `spaceCodec_exact`: What comes back.
* `cleanFilename_append_slash`: Decoding a path in two parts.
-/

namespace HttpFileSharing

/-- Encoding, one character at a time. -/
theorem makeHttpFriendly_cons (c : Char) (rest : Bytes) :
    makeHttpFriendly (c :: rest)
      = (if c = ' ' then escapedSpace else [c]) ++ makeHttpFriendly rest :=
  replaceAll_singleton ' ' escapedSpace c rest

/-- Decoding an escape. -/
theorem cleanFilename_escape (rest : Bytes) :
    cleanFilename (escapedSpace ++ rest) = ' ' :: cleanFilename rest := by
  have hpre : escapedSpace <+: '%' :: (['2', '0'] ++ rest) :=
    List.prefix_append escapedSpace rest
  change replaceFrom escapedSpace [' '] 0 ('%' :: (['2', '0'] ++ rest)) = _
  rw [replaceFrom, if_pos hpre]
  rfl

/-- Decoding anything else. -/
theorem cleanFilename_other (c : Char) (rest : Bytes) (h : ¬ escapedSpace <+: c :: rest) :
    cleanFilename (c :: rest) = c :: cleanFilename rest := by
  rw [cleanFilename, replaceAll, replaceFrom, if_neg h]
  rfl

/-- What a link is made of. -/
theorem mem_makeHttpFriendly (s : Bytes) (c : Char) (h : c ∈ makeHttpFriendly s) :
    c ≠ ' ' ∧ (c ∈ s ∨ c ∈ escapedSpace) := by
  induction s with
  | nil => exact absurd h List.not_mem_nil
  | cons x s ih =>
      rw [makeHttpFriendly_cons, List.mem_append] at h
      rcases h with h | h
      · split at h
        · refine ⟨?_, Or.inr h⟩
          rintro rfl
          exact absurd h (by decide)
        · rename_i hx
          rw [List.mem_singleton] at h
          exact ⟨h ▸ hx, Or.inl (h ▸ List.mem_cons_self)⟩
      · exact ⟨(ih h).1, (ih h).2.imp (List.mem_cons_of_mem x) id⟩

/-- A name is written as it is exactly when it has no space. -/
theorem makeHttpFriendly_eq_self_iff (s : Bytes) : makeHttpFriendly s = s ↔ ' ' ∉ s := by
  constructor
  · intro h hmem
    rw [← h] at hmem
    exact (mem_makeHttpFriendly s ' ' hmem).1 rfl
  · intro h
    induction s with
    | nil => rfl
    | cons c s ih =>
        rw [List.mem_cons, not_or] at h
        rw [makeHttpFriendly_cons, if_neg (fun hc => h.1 hc.symm), ih h.2]
        rfl

/-- What an encoded text begins with, if it is not an escape, its text does. -/
theorem makeHttpFriendly_eq_cons (s : Bytes) (c : Char) (rest : Bytes) (hc : c ≠ '%')
    (h : makeHttpFriendly s = c :: rest) : ∃ s', s = c :: s' ∧ makeHttpFriendly s' = rest := by
  cases s with
  | nil => exact absurd h (List.cons_ne_nil c rest).symm
  | cons x s =>
      rw [makeHttpFriendly_cons] at h
      split at h
      · exact absurd (List.cons.inj h).1.symm hc
      · exact ⟨s, by rw [(List.cons.inj h).1], (List.cons.inj h).2⟩

/-- Encoding makes no escape but for a space. -/
theorem escapedSpace_prefix_of_encoded (c : Char) (s : Bytes)
    (h : escapedSpace <+: c :: makeHttpFriendly s) : escapedSpace <+: c :: s := by
  rcases h with ⟨rest, h⟩
  rcases makeHttpFriendly_eq_cons s '2' _ (by decide) (List.cons.inj h).2.symm with ⟨s₁, rfl, h₁⟩
  rcases makeHttpFriendly_eq_cons s₁ '0' _ (by decide) h₁ with ⟨s₂, rfl, _⟩
  exact ⟨s₂, by rw [← (List.cons.inj h).1]; rfl⟩

/-- Decoding what was encoded is decoding. -/
theorem cleanFilename_makeHttpFriendly (s : Bytes) :
    cleanFilename (makeHttpFriendly s) = cleanFilename s := by
  -- By induction on the length, since an escape is decoded in one go.
  induction hn : s.length using Nat.strong_induction_on generalizing s with
  | _ n ih =>
      cases s with
      | nil => rfl
      | cons c s =>
          rw [List.length_cons] at hn
          by_cases hspace : c = ' '
          · have hnot : ¬ escapedSpace <+: ' ' :: s := fun h =>
              absurd (List.cons_prefix_cons.mp h).1 (by decide)
            rw [hspace, makeHttpFriendly_cons, if_pos rfl, cleanFilename_escape,
              cleanFilename_other _ _ hnot, ih s.length (by omega) s rfl]
          · rw [makeHttpFriendly_cons, if_neg hspace, List.singleton_append]
            by_cases hesc : escapedSpace <+: c :: s
            · -- An escape that was there before stays one.
              rcases hesc with ⟨rest, hrest⟩
              rw [escapedSpace, List.cons_append, List.cons.injEq] at hrest
              rcases hrest with ⟨rfl, rfl⟩
              have hencoded : '%' :: makeHttpFriendly (['2', '0'] ++ rest)
                  = escapedSpace ++ makeHttpFriendly rest := by
                rw [List.cons_append, makeHttpFriendly_cons, List.singleton_append,
                  makeHttpFriendly_cons]
                rfl
              rw [hencoded, cleanFilename_escape, ih rest.length (by
                simp only [List.length_append, List.length_cons] at hn
                omega) rest rfl]
              exact (cleanFilename_escape rest).symm
            · rw [cleanFilename_other c _ (fun h => hesc (escapedSpace_prefix_of_encoded c s h)),
                cleanFilename_other c s hesc, ih s.length (by omega) s rfl]

/-- A name without an escape comes back from its link. -/
theorem cleanFilename_link (name : Bytes) (h : ¬ escapedSpace <:+: name) :
    cleanFilename (makeHttpFriendly name) = name := by
  rw [cleanFilename_makeHttpFriendly]
  exact replaceAll_of_not_infix escapedSpace [' '] name h

/-- Exactly the texts without an escape come back. -/
theorem cleanFilename_makeHttpFriendly_iff (s : Bytes) :
    cleanFilename (makeHttpFriendly s) = s ↔ ¬ escapedSpace <:+: s := by
  rw [cleanFilename_makeHttpFriendly]
  exact replaceAll_eq_self_iff escapedSpace [' '] (by decide) s

/-- A text without a space comes back from its decoding. -/
theorem makeHttpFriendly_cleanFilename (u : Bytes) (h : ' ' ∉ u) :
    makeHttpFriendly (cleanFilename u) = u :=
  replaceAll_singleton_replaceAll escapedSpace (by decide) ' ' u h

/-- How far the two undo each other. Encoding first changes nothing about what
    is decoded or about which file is looked for. A text comes back from its
    encoding exactly when it has no escape, and from its decoding if it has no
    space. -/
theorem spaceCodec_exact (s : Bytes) :
    cleanFilename (makeHttpFriendly s) = cleanFilename s ∧
    (∀ env errno, checkIfFile env errno (makeHttpFriendly s) = checkIfFile env errno s) ∧
    (cleanFilename (makeHttpFriendly s) = s ↔ ¬ escapedSpace <:+: s) ∧
    (' ' ∉ s → makeHttpFriendly (cleanFilename s) = s) := by
  refine ⟨cleanFilename_makeHttpFriendly s, fun env errno => ?_,
    cleanFilename_makeHttpFriendly_iff s, makeHttpFriendly_cleanFilename s⟩
  rw [checkIfFile, checkIfFile, cleanFilename_makeHttpFriendly]

theorem spaceCodec_exact_name :
    cleanFilename (makeHttpFriendly "a b".toList) = "a b".toList ∧
      makeHttpFriendly (cleanFilename "a%20b".toList) = "a%20b".toList :=
  ⟨(spaceCodec_exact "a b".toList).2.2.1.mpr (by decide),
    (spaceCodec_exact "a%20b".toList).2.2.2 (by decide)⟩

/-- Decoding a path in two parts. -/
theorem cleanFilename_append_slash (a b : Bytes) :
    cleanFilename (a ++ '/' :: b) = cleanFilename a ++ '/' :: cleanFilename b :=
  replaceAll_append_cons escapedSpace [' '] '/' (by decide) (by decide) a b

/-- Decoding a string up to a NUL. -/
theorem cleanFilename_append_nul (a b : Bytes) :
    cleanFilename (a ++ '\x00' :: b) = cleanFilename a ++ '\x00' :: cleanFilename b :=
  replaceAll_append_cons escapedSpace [' '] '\x00' (by decide) (by decide) a b

/-- What a decoded string is made of. -/
theorem mem_cleanFilename (s : Bytes) (c : Char) (h : c ∈ cleanFilename s) : c ∈ s ∨ c = ' ' := by
  -- For any number of characters still to be skipped.
  have hgen : ∀ skip, c ∈ replaceFrom escapedSpace [' '] skip s → c ∈ s ∨ c = ' ' := by
    clear h
    induction s with
    | nil => exact fun skip h => absurd h (by cases skip <;> exact List.not_mem_nil)
    | cons x s ih =>
        intro skip h
        cases skip with
        | succ skip => exact (ih skip h).imp (List.mem_cons_of_mem x) id
        | zero =>
            rw [replaceFrom] at h
            split at h
            · rcases List.mem_append.mp h with h | h
              · exact Or.inr (List.mem_singleton.mp h)
              · exact (ih _ h).imp (List.mem_cons_of_mem x) id
            · rcases List.mem_cons.mp h with rfl | h
              · exact Or.inl List.mem_cons_self
              · exact (ih 0 h).imp (List.mem_cons_of_mem x) id
  exact hgen 0 h

end HttpFileSharing
