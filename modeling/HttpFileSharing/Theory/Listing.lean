import HttpFileSharing.Core.ProcessRequest
import HttpFileSharing.Theory.Paths
import Mathlib.Data.List.Induction

/-!
# Building a Listing Safely

When the page that lists a directory can be built without reading out of
range. The scan for the last slash finds one if there is one at or before the
index it starts from. If there is none it passes index zero, the index wraps
to the largest `unsigned`, and the next read is out of range. So a URI is safe
exactly when it is a lone slash, for which no scan is made, or has a slash
before its last character.

A listing that succeeds says nothing about that: the empty URI lists the
served directory itself, and a URI without a slash lists a directory whose
name begins with the served one's.

## Theorems

* `scanBack_slash`, `scanBack_none`: The scan with and without a slash.
* `extractNameFromPath_append`: The name after the last slash of a path.
* `getParentDir_slash`, `getParentDir_none`: The parent of a URI.
* `buildRspHtml_ok`, `buildRspHtml_fails`: The page, and what is read out of
  range.
* `listing_safe_exact`: The exact condition on the URI.
* `listing_unsafe`: The empty URI.
-/

namespace HttpFileSharing

theorem sizeSub_eq (n k : Nat) (hk : k ≤ n) (hn : n < 2 ^ 64) : sizeSub n k = n - k := by
  rw [sizeSub]
  omega

theorem toUnsigned_eq (n : Nat) (hn : n < 2 ^ 32) : toUnsigned n = n := Nat.mod_eq_of_lt hn

theorem charAt_append (a : Bytes) (c : Char) (b : Bytes) (n : Nat) (hn : n = a.length) :
    charAt (a ++ c :: b) n = .ok c := by
  rw [charAt, hn, List.getElem?_append_right (Nat.le_refl _), Nat.sub_self]
  rfl

theorem charAt_of_le (s : Bytes) (n : Nat) (h : s.length ≤ n) :
    charAt s n = .error .outOfRange := by
  rw [charAt, List.getElem?_eq_none h]

section Scan

/-- The scan stops at the last slash at or before its start. -/
theorem scanBack_slash (a b more : Bytes) (hb : '/' ∉ b) (fuel : Nat) (hfuel : b.length < fuel)
    (hlen : (a ++ '/' :: b).length < 2 ^ 32) :
    scanBack (a ++ '/' :: (b ++ more)) fuel (a.length + b.length) = .ok a.length := by
  induction b using List.reverseRecOn generalizing fuel more with
  | nil =>
      cases fuel with
      | zero => exact absurd hfuel (Nat.not_lt_zero _)
      | succ fuel =>
          change scanBack (a ++ '/' :: more) (fuel + 1) a.length = _
          rw [scanBack, charAt_append a '/' more _ rfl]
          exact if_pos rfl
  | append_singleton b y ih =>
      rw [List.mem_append, List.mem_singleton, not_or] at hb
      simp only [List.length_append, List.length_cons, List.length_nil] at hfuel hlen
      cases fuel with
      | zero => omega
      | succ fuel =>
          have hchar : charAt (a ++ '/' :: (b ++ [y] ++ more)) (a.length + (b ++ [y]).length)
              = .ok y := by
            have hsplit : a ++ '/' :: (b ++ [y] ++ more) = (a ++ '/' :: b) ++ y :: more := by
              simp only [List.append_assoc, List.cons_append, List.nil_append]
            rw [hsplit]
            refine charAt_append _ y more _ ?_
            simp only [List.length_append, List.length_cons, List.length_nil]
          -- The index before one that is not zero is the one below it.
          have hnext : toUnsigned (a.length + (b ++ [y]).length + 2 ^ 32 - 1)
              = a.length + b.length := by
            rw [toUnsigned, List.length_append, List.length_singleton]
            omega
          rw [scanBack, hchar]
          simp only [if_neg (fun h => hb.2 (Eq.symm h)), hnext]
          have hrest := ih (y :: more) hb.1 fuel (by omega)
            (by simp only [List.length_append, List.length_cons]; omega)
          rw [List.append_assoc b [y] more, List.singleton_append]
          exact hrest

/-- Without a slash the scan wraps and reads out of range. -/
theorem scanBack_none (b more : Bytes) (y : Char) (hb : '/' ∉ b ++ [y]) (fuel : Nat)
    (hfuel : b.length + 1 < fuel) (hlen : (b ++ y :: more).length < 2 ^ 32) :
    scanBack (b ++ y :: more) fuel b.length = .error .outOfRange := by
  induction b using List.reverseRecOn generalizing fuel more y with
  | nil =>
      rw [List.nil_append, List.mem_singleton] at hb
      rcases fuel with _ | _ | fuel
      · exact absurd hfuel (Nat.not_lt_zero _)
      · exact absurd hfuel (Nat.lt_irrefl _)
      · -- Below index zero comes the largest index there is.
        rw [List.nil_append] at hlen ⊢
        rw [List.length_nil, scanBack, show charAt (y :: more) 0 = .ok y from rfl]
        simp only [if_neg (fun h => hb (Eq.symm h))]
        rw [scanBack, charAt_of_le _ _ (by rw [toUnsigned]; omega)]
  | append_singleton b z ih =>
      rw [List.mem_append, List.mem_singleton, not_or] at hb
      simp only [List.length_append, List.length_cons, List.length_nil] at hfuel hlen
      cases fuel with
      | zero => omega
      | succ fuel =>
          have hnext : toUnsigned ((b ++ [z]).length + 2 ^ 32 - 1) = b.length := by
            rw [toUnsigned, List.length_append, List.length_singleton]
            omega
          rw [scanBack, charAt_append (b ++ [z]) y more _ rfl]
          simp only [if_neg (fun h => hb.2 (Eq.symm h)), hnext]
          rw [List.append_assoc, List.singleton_append]
          exact ih (y :: more) z hb.1 fuel (by omega)
            (by simp only [List.length_append, List.length_cons]; omega)

/-- The name after the last slash of a path. -/
theorem extractNameFromPath_append (path name : Bytes) (h : '/' ∉ name)
    (hlen : (path ++ '/' :: name).length < 2 ^ 32) :
    extractNameFromPath (path ++ '/' :: name) = .ok name := by
  have hstart : toUnsigned (sizeSub (path ++ '/' :: name).length 1)
      = path.length + name.length := by
    rw [sizeSub_eq _ _ (by simp only [List.length_append, List.length_cons]; omega)
      (Nat.lt_trans hlen (by decide)), toUnsigned_eq _ (by omega), List.length_append,
      List.length_cons]
    omega
  have hscan := scanBack_slash path name [] h ((path ++ '/' :: name).length + 1)
    (by simp only [List.length_append, List.length_cons]; omega) hlen
  rw [List.append_nil] at hscan
  rw [extractNameFromPath, hstart, hscan]
  simp only [Except.ok.injEq]
  rw [← List.singleton_append, ← List.append_assoc, List.drop_left']
  simp only [List.length_append, List.length_singleton]

end Scan

section Parent

/-- The parent of a URI with a slash before its last character: everything up
    to the last such slash. -/
theorem getParentDir_slash (a b : Bytes) (x : Char) (hb : '/' ∉ b)
    (hlen : (a ++ '/' :: (b ++ [x])).length < 2 ^ 32) :
    getParentDir (a ++ '/' :: (b ++ [x])) = .ok (a ++ ['/']) := by
  have hsize : (a ++ '/' :: (b ++ [x])).length = a.length + b.length + 2 := by
    simp only [List.length_append, List.length_cons, List.length_nil]
    omega
  -- The last character is read first.
  have hlast : charAt (a ++ '/' :: (b ++ [x])) (sizeSub (a ++ '/' :: (b ++ [x])).length 1)
      = .ok x := by
    rw [sizeSub_eq _ _ (by omega) (by omega), hsize, ← List.cons_append, ← List.append_assoc]
    refine charAt_append (a ++ '/' :: b) x [] _ ?_
    rw [List.length_append, List.length_cons]
    omega
  have htake : (a ++ '/' :: (b ++ [x])).take (a.length + 1) = a ++ ['/'] := by
    rw [List.take_append, List.take_of_length_le (Nat.le_succ _), Nat.add_sub_cancel_left]
    rfl
  rw [getParentDir, hlast]
  by_cases hx : x = '/'
  · -- The scan starts before the slash at the end.
    have hmax : toUnsigned (sizeSub (a ++ '/' :: (b ++ [x])).length 2) = a.length + b.length := by
      rw [sizeSub_eq _ _ (by omega) (by omega), toUnsigned_eq _ (by omega), hsize]
      omega
    have hscan := scanBack_slash a b [x] hb ((a ++ '/' :: (b ++ [x])).length + 1) (by omega)
      (by simp only [List.length_append, List.length_cons]; omega)
    simp only [if_pos hx, hmax, hscan, htake]
  · have hmax : toUnsigned (sizeSub (a ++ '/' :: (b ++ [x])).length 1)
        = a.length + (b ++ [x]).length := by
      rw [sizeSub_eq _ _ (by omega) (by omega), toUnsigned_eq _ (by omega), hsize,
        List.length_append, List.length_singleton]
      omega
    have hbx : '/' ∉ b ++ [x] := by
      rw [List.mem_append, List.mem_singleton, not_or]
      exact ⟨hb, fun h => hx h.symm⟩
    have hscan := scanBack_slash a (b ++ [x]) [] hbx ((a ++ '/' :: (b ++ [x])).length + 1)
      (by rw [hsize, List.length_append, List.length_singleton]; omega) hlen
    rw [List.append_nil] at hscan
    simp only [if_neg hx, hmax, hscan, htake]

/-- A URI other than a lone slash without a slash before its last character
    has no parent: the scan for it reads out of range. -/
theorem getParentDir_none (uri : Bytes) (hne : uri ≠ "/".toList) (hslash : '/' ∉ uri.dropLast)
    (hlen : uri.length < 2 ^ 32) : getParentDir uri = .error .outOfRange := by
  induction uri using List.reverseRecOn with
  | nil => rfl
  | append_singleton b x _ =>
      rw [List.dropLast_concat] at hslash
      rw [List.length_append, List.length_singleton] at hlen
      have hsize : (b ++ [x]).length = b.length + 1 := by
        rw [List.length_append, List.length_singleton]
      -- The last character can be read; it is what comes after that cannot.
      have hlast : charAt (b ++ [x]) (sizeSub (b ++ [x]).length 1) = .ok x := by
        refine charAt_append b x [] _ ?_
        rw [sizeSub_eq _ _ (by omega) (by omega), hsize, Nat.add_sub_cancel]
      rw [getParentDir, hlast]
      by_cases hx : x = '/'
      · -- A slash at the end is passed over, and the scan starts before it.
        induction b using List.reverseRecOn with
        | nil => exact absurd (by rw [hx]; rfl) hne
        | append_singleton b z _ =>
            have hsize' : (b ++ [z] ++ [x]).length = b.length + 2 := by
              simp only [List.length_append, List.length_singleton]
            have hmax : toUnsigned (sizeSub (b ++ [z] ++ [x]).length 2) = b.length := by
              rw [sizeSub_eq _ _ (by omega) (by omega), toUnsigned_eq _ (by omega), hsize']
              omega
            have hscan := scanBack_none b [x] z hslash ((b ++ [z] ++ [x]).length + 1) (by omega)
              (by simp only [List.length_append, List.length_cons, List.length_nil]; omega)
            rw [List.append_assoc, List.singleton_append] at hmax ⊢
            rw [List.append_assoc, List.singleton_append] at hscan
            simp only [if_pos hx, hmax, hscan]
      · have hmax : toUnsigned (sizeSub (b ++ [x]).length 1) = b.length := by
          rw [sizeSub_eq _ _ (by omega) (by omega), toUnsigned_eq _ (by omega), hsize,
            Nat.add_sub_cancel]
        have hbx : '/' ∉ b ++ [x] := by
          rw [List.mem_append, List.mem_singleton, not_or]
          exact ⟨hslash, fun h => hx h.symm⟩
        have hscan := scanBack_none b [] x hbx ((b ++ [x]).length + 1) (by omega)
          (by simp only [List.length_append, List.length_cons, List.length_nil]; omega)
        simp only [if_neg hx, hmax, hscan]

end Parent

/-- Where the page for a URI can be built. -/
def SafeUri (uri : Bytes) : Prop := uri = "/".toList ∨ '/' ∈ uri.dropLast

theorem fillHtmlBody_ok (tree : List FSEntry) (uri : Bytes) (hne : uri ≠ [])
    (hlen : uri.length < 2 ^ 32) : ∃ body, fillHtmlBody tree uri = .ok body := by
  induction uri using List.reverseRecOn with
  | nil => exact absurd rfl hne
  | append_singleton b x _ =>
      rw [List.length_append, List.length_singleton] at hlen
      have hlast : charAt (b ++ [x]) (sizeSub (b ++ [x]).length 1) = .ok x := by
        refine charAt_append b x [] _ ?_
        rw [List.length_append, List.length_singleton, sizeSub_eq _ _ (by omega) (by omega),
          Nat.add_sub_cancel]
      rw [fillHtmlBody, hlast]
      by_cases htree : tree = []
      · exact ⟨_, if_pos htree⟩
      · exact ⟨_, if_neg htree⟩

/-- The page for a safe URI is built, and is not empty. -/
theorem buildRspHtml_ok (env : Env) (buffer : Bytes) (req : HTTPRequest) (tree : List FSEntry)
    (src : Bytes) (hlen : req.mUri.length < 2 ^ 32) (hsafe : SafeUri req.mUri) :
    ∃ page, buildRspHtml env buffer req tree src = .ok (.httpOk, page) ∧ page ≠ [] := by
  -- The last slash before the last character ends the scan.
  have hparent : ∃ parent, (if req.mUri ≠ "/".toList then getParentDir req.mUri else .ok [])
      = .ok parent := by
    by_cases hroot : req.mUri = "/".toList
    · exact ⟨[], if_neg (fun h => h hroot)⟩
    · rw [if_pos hroot]
      rcases hsafe with hroot' | hslash
      · exact absurd hroot' hroot
      · rcases exists_last '/' _ hslash with ⟨a, b, hab, hb⟩
        have hne : req.mUri ≠ [] := fun h => by
          rw [h] at hslash
          exact absurd hslash List.not_mem_nil
        have hsplit : req.mUri = a ++ '/' :: (b ++ [req.mUri.getLast hne]) := by
          rw [← List.cons_append, ← List.append_assoc, ← hab, List.dropLast_append_getLast]
        have hparent := getParentDir_slash a b (req.mUri.getLast hne) hb (hsplit ▸ hlen)
        rw [← hsplit] at hparent
        exact ⟨_, hparent⟩
  have hne : req.mUri ≠ [] := by
    intro h
    rw [h] at hsafe
    exact absurd hsafe (by unfold SafeUri; decide)
  rcases hparent with ⟨parent, hparent⟩
  rcases fillHtmlBody_ok tree req.mUri hne hlen with ⟨body, hbody⟩
  rw [buildRspHtml, hparent, hbody]
  refine ⟨_, rfl, fun h => ?_⟩
  simp only [List.append_eq_nil_iff, lf, List.cons_ne_nil, and_false] at h

/-- For any other URI it reads out of range. -/
theorem buildRspHtml_fails (env : Env) (buffer : Bytes) (req : HTTPRequest)
    (tree : List FSEntry) (src : Bytes) (hlen : req.mUri.length < 2 ^ 32)
    (hnot : ¬ SafeUri req.mUri) :
    buildRspHtml env buffer req tree src = .error .outOfRange := by
  rw [SafeUri, not_or] at hnot
  rw [buildRspHtml, if_pos hnot.1, getParentDir_none req.mUri hnot.1 hnot.2 hlen]

/-- A path that was listed was not too long. -/
theorem short_of_listing (env : Env) (errno errno' : Errno) (uri : Bytes)
    (tree : List FSEntry) (h : getFileListing env errno uri = .ok (some tree, errno')) :
    (cookPath env uri).length < pathMax := by
  rw [getFileListing] at h
  split at h
  · exact absurd h (by simp only [Except.ok.injEq, Prod.mk.injEq, reduceCtorEq, false_and,
      not_false_eq_true])
  · rename_i hshort
    exact Nat.lt_of_not_le hshort

theorem length_of_listing (env : Env) (errno errno' : Errno) (uri : Bytes)
    (tree : List FSEntry) (h : getFileListing env errno uri = .ok (some tree, errno')) :
    uri.length < 2 ^ 32 := by
  have hshort := short_of_listing env errno errno' uri tree h
  rw [cookPath, List.length_append, pathMax] at hshort
  omega

/-- The page for a URI whose listing succeeds is built, every index within
    its string, exactly when the URI is a lone slash or has a slash before its
    last character. -/
theorem listing_safe_exact (env : Env) (errno errno' : Errno) (req : HTTPRequest)
    (tree : List FSEntry) (hlist : getFileListing env errno req.mUri = .ok (some tree, errno'))
    (buffer src : Bytes) :
    (∃ rsp, buildRspHtml env buffer req tree src = .ok rsp)
      ↔ req.mUri = "/".toList ∨ '/' ∈ req.mUri.dropLast := by
  have hlen := length_of_listing env errno errno' req.mUri tree hlist
  constructor
  · rintro ⟨rsp, hrsp⟩
    by_contra hnot
    rw [buildRspHtml_fails env buffer req tree src hlen hnot] at hrsp
    exact absurd hrsp (by simp only [reduceCtorEq, not_false_eq_true])
  · intro hsafe
    rcases buildRspHtml_ok env buffer req tree src hlen hsafe with ⟨page, hpage, _⟩
    exact ⟨_, hpage⟩

/-- A server in `/s` with two more levels of directories below it. -/
def deepEnv : Env where
  fs := FileSystem.uniform twoNames 3 (.file true ['a', 'b', 'c']) rfl
  cwd := sampleEnv.cwd
  options := sampleEnv.options
  executableFileName := sampleEnv.executableFileName

/-- The served directory, and one that has a parent to be read out of its URI. -/
theorem listing_safe_exact_root :
    ((∃ rsp, buildRspHtml sampleEnv [] { mUri := "/".toList }
        [{ isDir := false, name := ['s'], fileSize := 2 },
          { isDir := false, name := ['x'], fileSize := 2 }] [] = .ok rsp)
      ↔ "/".toList = "/".toList ∨ '/' ∈ "/".toList.dropLast) ∧
    ((∃ rsp, buildRspHtml deepEnv [] { mUri := "/s/x".toList }
        [{ isDir := false, name := ['s'], fileSize := 3 },
          { isDir := false, name := ['x'], fileSize := 3 }] [] = .ok rsp)
      ↔ "/s/x".toList = "/".toList ∨ '/' ∈ "/s/x".toList.dropLast) :=
  ⟨listing_safe_exact sampleEnv 0 0 { mUri := "/".toList }
      [{ isDir := false, name := ['s'], fileSize := 2 },
        { isDir := false, name := ['x'], fileSize := 2 }] (by decide) [] [],
    listing_safe_exact deepEnv 0 0 { mUri := "/s/x".toList }
      [{ isDir := false, name := ['s'], fileSize := 3 },
        { isDir := false, name := ['x'], fileSize := 3 }] (by decide) [] []⟩

/-- The request line with nothing between its spaces lists the served
    directory and then reads out of range. -/
theorem listing_unsafe :
    ¬ ∀ env errno line tree errno' src,
      getFileListing env errno (parseHttpMethod line).2.1 = .ok (some tree, errno') →
      ∃ rsp, buildRspHtml env [] { mUri := (parseHttpMethod line).2.1 } tree src = .ok rsp := by
  intro hall
  -- The listing of the directory itself succeeds.
  rcases hall sampleEnv 0 "GET  HTTP/1.0\r\n".toList
    [{ isDir := false, name := ['s'], fileSize := 2 },
      { isDir := false, name := ['x'], fileSize := 2 }] 0 [] (by decide) with ⟨rsp, hrsp⟩
  have hfails := buildRspHtml_fails sampleEnv []
    { mUri := (parseHttpMethod "GET  HTTP/1.0\r\n".toList).2.1 }
    [{ isDir := false, name := ['s'], fileSize := 2 },
      { isDir := false, name := ['x'], fileSize := 2 }] [] (by decide) (by unfold SafeUri; decide)
  rw [hfails] at hrsp
  exact absurd hrsp (by simp only [reduceCtorEq, not_false_eq_true])

end HttpFileSharing
