import HttpFileSharing.Theory.Request

/-!
# A Request in Pieces

The server acts on what the first receive gave it and never receives again,
so what becomes of a request depends on where the stream was cut. It depends
on that in one way only: the method, the URI and the header map come out as
if the request had arrived whole exactly when the first chunk, short of the
last byte of the buffer, holds the request line and the first header of each
name complete. Later headers of a name already seen may be missing, as may
the blank line.

## Main definitions

* `actedOn`: The part of a parsed request the server acts on.
* `Arrived`: The leading bytes of a request that decide everything.

## Theorems

* `parse_fits`: The parser over the lines that fit in a prefix.
* `emplaceAll_eq_iff`: When a prefix of the headers gives the whole map.
* `segmentation_exact`: The exact condition on the first chunk.
* `segmentation_fails`: A chunk that ends inside the request line.
-/

namespace HttpFileSharing

/-- The method, the URI and the header map of a parsed request. -/
def actedOn (req : HTTPRequest) : Bytes × Bytes × StdMap Bytes Bytes :=
  (req.mMethod, req.mUri, req.mHeader)

/-- The first `m` bytes of the request hold its request line and, for every
    name, the first header of that name. -/
def Arrived (r : Request) (m : Nat) : Prop :=
  r.requestLine.length ≤ m ∧
    ∀ pre h post, r.headers = pre ++ h :: post → (∀ p ∈ pre, p.name ≠ h.name) →
      r.requestLine.length + ((pre ++ [h]).map Header.line).flatten.length ≤ m

/-- With the request line complete, the parser sees the headers whose lines
    fit. -/
theorem parse_fits (r : Request) (hbody : r.body = []) (m : Nat)
    (hm : r.requestLine.length ≤ m) :
    ∃ hs, hs <+: r.headers ∧
      fits (m - r.requestLine.length) (r.headers.map Header.line) = hs.map Header.line ∧
      (HTTPRequest.parse {} (fits m r.lines)).2 = HTTPRequest.parsed r hs [] := by
  have hlines : r.lines = r.requestLine :: (r.headers.map Header.line ++ [crlf]) := by
    rw [Request.lines, Request.head, hbody, List.cons_append]
  rw [hlines, fits, if_pos hm]
  -- Either all header lines fit, or the search stops among them.
  by_cases hall : (r.headers.map Header.line).flatten.length ≤ m - r.requestLine.length
  · refine ⟨r.headers, List.prefix_refl _, ?_, ?_⟩
    · rw [← List.append_nil (r.headers.map Header.line), fits_append _ _ _ hall, fits]
    · -- Whether or not the blank line is there, the fields are the same.
      rw [fits_append _ _ _ hall, fits]
      split
      · rw [fits, ← hlines, HTTPRequest.parse_lines, hbody]
      · rw [List.append_nil, HTTPRequest.parse_head]
  · rcases List.prefix_map_iff.mp (fits_isPrefix (m - r.requestLine.length)
      (r.headers.map Header.line)) with ⟨hs, hpre, hfits⟩
    refine ⟨hs, hpre, hfits, ?_⟩
    rw [fits_append_of_lt _ _ _ (by omega), hfits, HTTPRequest.parse_head]

/-- A prefix of the headers gives the whole map exactly when it has the first
    header of each name. -/
theorem emplaceAll_eq_iff (hs headers : List Header) (hpre : hs <+: headers) :
    emplaceAll ∅ hs = emplaceAll ∅ headers ↔
      ∀ pre h post, headers = pre ++ h :: post → (∀ p ∈ pre, p.name ≠ h.name) →
        pre ++ [h] <+: hs := by
  constructor
  · rintro heq pre h post rfl hfirst
    -- The map has the name, so some header of that name is in the prefix.
    have hsome : (firstValue h.name hs).isSome = true := by
      rw [← lookup_emplaceAll, heq, lookup_emplaceAll, firstValue, Option.isSome_map,
        List.find?_isSome]
      exact ⟨h, List.mem_append_right _ List.mem_cons_self, decide_eq_true rfl⟩
    rw [firstValue, Option.isSome_map, List.find?_isSome] at hsome
    rcases hsome with ⟨h', hmem, hname⟩
    have hmore : pre ++ [h] <+: pre ++ h :: post :=
      (List.prefix_append_right_inj pre).mpr ⟨post, rfl⟩
    refine List.prefix_of_prefix_length_le hmore hpre ?_
    by_contra hshort
    rw [List.length_append, List.length_singleton] at hshort
    have hin : hs <+: pre :=
      List.prefix_of_prefix_length_le hpre (List.prefix_append pre _) (by omega)
    exact hfirst h' (hin.subset hmem) (of_decide_eq_true hname)
  · intro hall
    refine Finmap.ext_lookup (fun name => ?_)
    rw [lookup_emplaceAll, lookup_emplaceAll, firstValue, firstValue]
    rcases hpre with ⟨more, rfl⟩
    rw [List.find?_append]
    cases hfind : hs.find? (fun h => h.name = name) with
    | some h => rw [Option.some_or]
    | none =>
        -- A first header outside the prefix would have to be inside it.
        rw [Option.none_or]
        cases hmore : more.find? (fun h => h.name = name) with
        | none => rfl
        | some h =>
            have hwhole : (hs ++ more).find? (fun h => h.name = name) = some h := by
              rw [List.find?_append, hfind, hmore, Option.none_or]
            rcases List.find?_eq_some_iff_append.mp hwhole with ⟨hname, pre, post, hsplit, hne⟩
            have hnamed : h.name = name := of_decide_eq_true hname
            have hin := hall pre h post hsplit (fun p hp => by
              have hp' := hne p hp
              rw [Bool.not_eq_true', decide_eq_false_iff_not] at hp'
              rw [hnamed]
              exact hp')
            have hmem : h ∈ hs := hin.subset (List.mem_append_right _ List.mem_cons_self)
            exact absurd (decide_eq_true hnamed) (List.find?_eq_none.mp hfind h hmem)

/-- A header fits when its line and all before it do. -/
theorem prefix_iff_fits (hs pre : List Header) (h : Header) (post : List Header) (m : Nat)
    (hpre : hs <+: pre ++ h :: post)
    (hfits : fits m ((pre ++ h :: post).map Header.line) = hs.map Header.line) :
    pre ++ [h] <+: hs ↔ ((pre ++ [h]).map Header.line).flatten.length ≤ m := by
  have hlines := append_prefix_fits m (pre.map Header.line) h.line (post.map Header.line)
  rw [← List.map_cons, ← List.map_append, hfits, ← List.map_singleton, ← List.map_append] at hlines
  rw [← hlines]
  refine ⟨fun hin => hin.map Header.line, fun hin => ?_⟩
  have hlen := hin.length_le
  rw [List.length_map, List.length_map] at hlen
  exact List.prefix_of_prefix_length_le ((List.prefix_append_right_inj pre).mpr ⟨post, rfl⟩)
    hpre hlen

/-- The lines that fit in `m` bytes parse to the whole request exactly when
    these bytes decide it. -/
theorem actedOn_fits (r : Request) (hget : r.method = ['G', 'E', 'T']) (hbody : r.body = [])
    (m : Nat) :
    actedOn (HTTPRequest.parse {} (fits m r.lines)).2
        = (r.method, r.uri, emplaceAll ∅ r.headers) ↔ Arrived r m := by
  by_cases hm : r.requestLine.length ≤ m
  · rcases parse_fits r hbody m hm with ⟨hs, hpre, hfits, hparse⟩
    rw [hparse]
    simp only [actedOn, HTTPRequest.parsed, Prod.mk.injEq, true_and]
    rw [emplaceAll_eq_iff hs r.headers hpre, Arrived, and_iff_right hm]
    refine forall_congr' fun pre => forall_congr' fun h => forall_congr' fun post =>
      forall_congr' fun hheaders => forall_congr' fun _ => ?_
    rw [hheaders] at hpre hfits
    rw [prefix_iff_fits hs pre h post _ hpre hfits]
    omega
  · -- Without the request line there is no method.
    have hnone : fits m r.lines = [] := by
      rw [Request.lines, Request.head, List.cons_append, fits, if_neg hm]
    refine iff_of_false (fun heq => ?_) (fun harrived => hm harrived.1)
    rw [hnone, hget] at heq
    have hmethod : (actedOn (HTTPRequest.parse {} []).2).1 = ['G', 'E', 'T'] :=
      congrArg Prod.fst heq
    exact absurd hmethod (by decide)

/-- What the server acts on after a first receive of `chunk` bytes. -/
theorem parsedRequest_of_fits (r : Request) (size : Nat) (chunk : Bytes) (rest : Inbound)
    (hne : chunk ≠ []) (hsize : chunk.length ≤ size) (hpre : chunk <+: r.render) :
    parsedRequest size (some chunk :: rest)
      = some (HTTPRequest.parse {} (fits (min (size - 1) chunk.length) r.lines)).2 := by
  rw [parsedRequest, receiveLines_chunk size chunk rest hne
    (Nat.lt_of_lt_of_le (List.length_pos_iff.mpr hne) hsize), Option.map_some]
  rw [List.prefix_iff_eq_take.mp hpre, List.take_take, ← List.prefix_iff_eq_take.mp hpre,
    Request.render, completeLines_take '\n' r.lines _ r.lines_isLine]

/-- The server acts on the same request as if it had arrived whole in one
    receive with room for it exactly when the first chunk, short of the last
    byte of the buffer, holds the request line and the first header of each
    name. -/
theorem segmentation_exact (r : Request) (hget : r.method = ['G', 'E', 'T'])
    (hbody : r.body = []) (first : Bytes) (rest : List Bytes)
    (hsplit : (first :: rest).flatten = r.render)
    (hchunks : ∀ c ∈ first :: rest, 0 < c.length ∧ c.length ≤ defaultBufferSize)
    (size : Nat) (hsize : r.render.length ≤ size) :
    (parsedRequest defaultBufferSize ((first :: rest).map some)).map actedOn
        = (parsedRequest size [some r.render]).map actedOn
      ↔ Arrived r (min (defaultBufferSize - 1) first.length) := by
  have hfirst := hchunks first List.mem_cons_self
  have hpre : first <+: r.render := hsplit ▸ List.prefix_append first rest.flatten
  have hne : first ≠ [] := List.ne_nil_of_length_pos hfirst.1
  -- Arriving whole, every header is complete.
  have hflat : r.render.length
      = r.requestLine.length + (r.headers.map Header.line).flatten.length + 2 := by
    simp only [Request.render, Request.lines, Request.head, hbody, List.flatten_append,
      List.flatten_cons, List.flatten_nil, List.length_append, crlf, List.length_cons,
      List.length_nil]
  have hwhole : (parsedRequest size [some r.render]).map actedOn
      = some (r.method, r.uri, emplaceAll ∅ r.headers) := by
    rw [parsedRequest_of_fits r size r.render [] r.render_ne_nil hsize (List.prefix_refl _),
      Option.map_some, Option.some.injEq, actedOn_fits r hget hbody]
    refine ⟨by omega, fun pre h post hheaders _ => ?_⟩
    -- Any leading part of the headers is shorter than all of them.
    rw [hheaders, List.map_append, List.flatten_append, List.length_append, List.map_cons,
      List.flatten_cons, List.length_append] at hflat
    rw [List.map_append, List.flatten_append, List.length_append, List.map_singleton,
      List.flatten_singleton]
    omega
  rw [hwhole, List.map_cons, parsedRequest_of_fits r defaultBufferSize first _ hne hfirst.2 hpre,
    Option.map_some, Option.some.injEq, actedOn_fits r hget hbody]

/-- `GET / 1` with one header. -/
def getRequest : Request where
  __ := sampleRequest
  headers := sampleRequest.headers.take 1
  body := []
  body_lines := fun _ hl => absurd hl List.not_mem_nil

/-- Cut inside the header line, the header is lost. -/
theorem segmentation_exact_cut :
    (parsedRequest defaultBufferSize [some (getRequest.render.take 12),
        some (getRequest.render.drop 12)]).map actedOn
      = (parsedRequest 100 [some getRequest.render]).map actedOn
      ↔ Arrived getRequest (min (defaultBufferSize - 1) (getRequest.render.take 12).length) :=
  segmentation_exact getRequest rfl rfl (getRequest.render.take 12) [getRequest.render.drop 12]
    (by decide) (by decide) 100 (by decide)

/-- Cut inside the request line, nothing of the request is left. -/
theorem segmentation_fails :
    ¬ ∀ (r : Request), r.method = ['G', 'E', 'T'] → r.body = [] →
      ∀ chunks : List Bytes, chunks.flatten = r.render →
      (∀ c ∈ chunks, 0 < c.length ∧ c.length ≤ defaultBufferSize) →
      ∀ size, r.render.length ≤ size →
        (parsedRequest defaultBufferSize (chunks.map some)).map actedOn
          = (parsedRequest size [some r.render]).map actedOn := by
  intro hall
  have heq := hall getRequest rfl rfl [getRequest.render.take 3, getRequest.render.drop 3]
    (by decide) (by decide) 100 (by decide)
  have hpre : getRequest.render.take 3 <+: getRequest.render := List.take_prefix 3 _
  rw [List.map_cons, parsedRequest_of_fits getRequest _ _ _ (by decide) (by decide) hpre,
    parsedRequest_of_fits getRequest 100 _ [] (by decide) (by decide) (List.prefix_refl _)] at heq
  exact absurd (congrArg (Option.map Prod.fst) heq) (by decide)

end HttpFileSharing
