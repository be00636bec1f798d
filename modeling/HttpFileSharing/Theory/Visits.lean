import HttpFileSharing.Core.Visits
import HttpFileSharing.Lib.Decimal
import HttpFileSharing.Theory.DiskLedger
import HttpFileSharing.Theory.Request

/-!
# Clients do not Notice Each Other

The server keeps one score for each address, in memory and in the file, and that
is all that one visit leaves for another. So what a client gets depends on its own
visits only. Two things stand in the way. The scores are kept under the text of an
address, so two addresses must not have one text. And the file is shared, so the
rows of one client must not make a statement for another one fail.

For the same reason it makes no difference to anybody when the process is killed
between two visits and started again, provided that it finds its database: what it
loads is what the one before had.

What the clients do share is the workers. A handler that goes on for ever keeps one,
and once all are kept nobody is served any more, until a restart. So both hold of runs
in which some worker is always left.

Both are one argument. `Agree` relates two servers that handle requests the same
way, have the same scores for some addresses, and of which the second has no fewer
workers left. A visit from one of these addresses gives the same outcome on both, or
ends both; a visit from any other address to the first of them leaves them related.

## Main definitions

* `InAddr.ip`: The address a score is kept under.
* `Agree`: Two servers with the same scores for some addresses.
* `Serving.Backed`: A server that opens a file with its scores.
* `Serving.Staffed`: A run in which some worker is always left.

## Theorems

* `getSrcAddr_eq`: The text fits the buffer.
* `dotted_injective`, `ip_injective`: No two addresses have one text.
* `visit_backed`: A visit leaves the file as it should be.
* `visit_agree`, `visits_agree`: The same visits on two servers that agree.
* `staffed_of_run`: When some worker is always left.
* `visits_filter`: The visits of one address on their own.
* `clients_isolated`: A client gets what it would get without the others.
* `restarts_unnoticed`: A client gets what it would get without the restarts.
-/

namespace HttpFileSharing

section Address

variable (addr : InAddr)

/-- A byte has three digits at most. -/
theorem length_digits_le (b : UInt8) : (Nat.toDigits 10 b.toNat).length ≤ 3 := by
  rw [Nat.length_toDigits_le_iff (by decide) (by decide)]
  have hlt := b.toNat_lt
  omega

theorem length_dotted_le : addr.dotted.length ≤ 15 := by
  have h0 := length_digits_le addr.b0
  have h1 := length_digits_le addr.b1
  have h2 := length_digits_le addr.b2
  have h3 := length_digits_le addr.b3
  simp only [InAddr.dotted, List.length_append, List.length_cons]
  omega

/-- The text of every address fits the buffer it is written to. -/
theorem getSrcAddr_eq : TCPConnection.getSrcAddr addr = .ok addr.dotted := by
  have hle := length_dotted_le addr
  rw [TCPConnection.getSrcAddr, inetNtop, if_pos (by rw [inetAddrstrlen]; omega)]

theorem toDigits_injective (m n : Nat) (h : Nat.toDigits 10 m = Nat.toDigits 10 n) : m = n := by
  have hread := readDigits_toDigits m
  rw [h, readDigits_toDigits, Option.some.injEq] at hread
  exact hread.symm

/-- Up to the first dot there is one number to be read. -/
theorem toDigits_dot (m n : Nat) (r r' : Bytes)
    (h : Nat.toDigits 10 m ++ '.' :: r = Nat.toDigits 10 n ++ '.' :: r') : m = n ∧ r = r' := by
  have hcut := takeUntil_append '.' (Nat.toDigits 10 m) r (not_mem_toDigits m '.' (by decide))
  rw [h, takeUntil_append '.' _ r' (not_mem_toDigits n '.' (by decide)), Prod.mk.injEq] at hcut
  exact ⟨(toDigits_injective n m hcut.1).symm, hcut.2.symm⟩

/-- No two addresses have one text. -/
theorem dotted_injective (other : InAddr) (h : addr.dotted = other.dotted) : addr = other := by
  rcases toDigits_dot _ _ _ _ h with ⟨h0, h⟩
  rcases toDigits_dot _ _ _ _ h with ⟨h1, h⟩
  rcases toDigits_dot _ _ _ _ h with ⟨h2, h⟩
  have h3 := toDigits_injective _ _ h
  cases addr
  cases other
  simp only [InAddr.mk.injEq]
  exact ⟨UInt8.toNat_inj.mp h0, UInt8.toNat_inj.mp h1, UInt8.toNat_inj.mp h2,
    UInt8.toNat_inj.mp h3⟩

/-- The address a score is kept under. -/
def InAddr.ip : IpAddr := StatsDb.ipAddrOf addr.dotted

/-- Nothing is cut off the text. -/
theorem ip_text : addr.ip.text = addr.dotted := by
  refine List.takeWhile_eq_self_iff.mpr (fun c hc => ?_)
  have hdigit : ∀ n : Nat, c ∈ Nat.toDigits 10 n → c ≠ '\x00' := by
    rintro n hn rfl
    exact not_mem_toDigits n _ (by decide) hn
  simp only [InAddr.dotted, List.mem_append, List.mem_cons] at hc
  rw [decide_eq_true_eq]
  rcases hc with hc | rfl | hc | rfl | hc | rfl | hc
  · exact hdigit _ hc
  · decide
  · exact hdigit _ hc
  · decide
  · exact hdigit _ hc
  · decide
  · exact hdigit _ hc

omit addr in
theorem ip_injective : Function.Injective InAddr.ip := by
  intro addr other h
  refine dotted_injective addr other ?_
  rw [← ip_text, ← ip_text, h]

theorem ip_nonEmpty : addr.ip.text ≠ [] := by
  rw [ip_text, InAddr.dotted]
  exact List.append_ne_nil_of_left_ne_nil Nat.toDigits_ne_nil _

end Address

variable {sq : Sqlite} {v : sq.View}

/-- A server that opens a file with the scores it has in memory. -/
def Serving.Backed (v : sq.View) (s : Serving sq) (loc : v.File) : Prop :=
  ∃ table, s.Mirrors v loc table

/-- Two servers that handle requests the same way and have the same scores for some
    addresses, the second with no fewer workers left. -/
structure Agree (ips : IpAddr → Prop) (s t : Serving sq) : Prop where
  env : t.env = s.env
  threshold : t.blacklistThreshold = s.blacklistThreshold
  scores : ∀ ip, ips ip → Finmap.lookup ip t.statsList = Finmap.lookup ip s.statsList
  idle : s.idle ≤ t.idle

theorem Agree.refl (ips : IpAddr → Prop) (s : Serving sq) : Agree ips s s :=
  ⟨rfl, rfl, fun _ _ => rfl, Nat.le_refl _⟩

theorem Agree.final {ips : IpAddr → Prop} {s t : Serving sq} (h : Agree ips s t) (ip : IpAddr)
    (hip : ips ip) (good : Bool) : t.finalScore ip good = s.finalScore ip good := by
  rw [Serving.finalScore, Serving.finalScore, h.scores ip hip]

section Update

variable (s : Serving sq) (ip : IpAddr) (good : Bool)

/-- An update of a server that opens a file with its scores: the score leaves the
    range of an `int`, or is the new one, in memory and in the file. -/
theorem updateIpAddrStats_backed (hworks : sq.Works v) (loc : v.File) (h : s.Backed v loc)
    (hip : ip.text ≠ []) :
    (¬ IntRange (s.finalScore ip good) ∧ s.updateIpAddrStats ip good = .error .undefined) ∨
    ∃ ret s', IntRange (s.finalScore ip good) ∧ s.updateIpAddrStats ip good = .ok (ret, s') ∧
      s'.env = s.env ∧ s'.dbFile = s.dbFile ∧ s'.blacklistThreshold = s.blacklistThreshold ∧
      s'.idle = s.idle ∧ s'.Backed v loc ∧
      ∀ a, Finmap.lookup a s'.statsList
        = if a = ip then some (s.finalScore ip good) else Finmap.lookup a s.statsList := by
  rcases h with ⟨table, h⟩
  rcases updateIpAddrStats_spec s ip good hworks loc table h.place h.scores h.loaded with
    hover | ⟨ret, stats, world, hrange, hok, _, _, hlookup⟩
  · exact Or.inl hover
  · have hkept := (updateIpAddrStats_mirrors s ip good hworks loc table ret _ h hip hok).1
    exact Or.inr ⟨ret, _, hrange, hok, rfl, rfl, rfl, rfl, hkept, hlookup⟩

end Update

section Visit

variable (ndebug : Bool) (fuel : Nat)

/-- A visit, with the address of its client. -/
theorem visit_eq (s : Serving sq) (u : Visit) :
    s.visit ndebug fuel u =
      if isIpaddrBlacklisted s.blacklistThreshold s.statsList u.src.ip = true then
        .ok (.dropped, s)
      else if s.idle = 0 then .ok (.waiting, s)
      else match handleConnection ndebug s.env u.answers fuel u.errno u.inbound u.src.ip.text with
        | .error fault => match fault.stops with
          | some e => .error e
          | none => .ok (.hanging, { s with idle := s.idle - 1 })
        | .ok none => .ok (.refused, s)
        | .ok (some p) => match s.updateIpAddrStats u.src.ip p.goodRequest with
          | .error e => .error e
          | .ok (_, s') => .ok (.answered p.out, s') := by
  rw [Serving.visit, getSrcAddr_eq]
  rfl

/-- What a visit leaves alone: the server opens a file with its scores, handles requests
    the same way, has no more workers left and has changed no score but one. -/
structure Serving.Visited (v : sq.View) (loc : v.File) (ip : IpAddr) (s s' : Serving sq) :
    Prop where
  backed : s'.Backed v loc
  env : s'.env = s.env
  dbFile : s'.dbFile = s.dbFile
  threshold : s'.blacklistThreshold = s.blacklistThreshold
  idle : s'.idle ≤ s.idle
  others : ∀ a, a ≠ ip → Finmap.lookup a s'.statsList = Finmap.lookup a s.statsList

/-- A visit changes no score but that of its client. -/
theorem visit_backed (hworks : sq.Works v) (s : Serving sq) (u : Visit) (loc : v.File)
    (h : s.Backed v loc) (o : Outcome) (s' : Serving sq)
    (hok : s.visit ndebug fuel u = .ok (o, s')) : s.Visited v loc u.src.ip s' := by
  have hsame : s' = s → s.Visited v loc u.src.ip s' := by
    rintro rfl
    exact ⟨h, rfl, rfl, rfl, Nat.le_refl _, fun _ _ => rfl⟩
  rw [visit_eq] at hok
  split at hok
  · exact hsame (Prod.mk.inj (Except.ok.inj hok)).2.symm
  · split at hok
    · exact hsame (Prod.mk.inj (Except.ok.inj hok)).2.symm
    · split at hok
      · split at hok
        · exact absurd hok (by simp only [reduceCtorEq, not_false_eq_true])
        · -- The handler keeps its worker.
          rw [← (Prod.mk.inj (Except.ok.inj hok)).2]
          rcases h with ⟨table, h⟩
          exact ⟨⟨table, h.place, h.scores, h.inRange, h.nonEmpty, h.same⟩, rfl, rfl, rfl,
            Nat.sub_le _ _, fun _ _ => rfl⟩
      · exact hsame (Prod.mk.inj (Except.ok.inj hok)).2.symm
      · rename_i p _
        rcases updateIpAddrStats_backed s u.src.ip p.goodRequest hworks loc h (ip_nonEmpty u.src)
          with ⟨_, hover⟩ |
            ⟨ret, s₁, _, hupdate, henv, hfile, hthreshold, hidle, hbacked, hlookup⟩
        · rw [hover] at hok
          exact absurd hok (by simp only [reduceCtorEq, not_false_eq_true])
        · rw [hupdate] at hok
          rw [← (Prod.mk.inj (Except.ok.inj hok)).2]
          exact ⟨hbacked, henv, hfile, hthreshold, hidle.le,
            fun a ha => by rw [hlookup, if_neg ha]⟩

/-- A visit to either of two servers that agree about its address: it ends both in
    the same way, or has the same outcome on both, and they agree after it. -/
theorem visit_agree (hworks : sq.Works v) (ips : IpAddr → Prop) (s t : Serving sq)
    (h : Agree ips s t) (hidle : 0 < s.idle) (u : Visit) (hu : ips u.src.ip) (loc loc' : v.File)
    (hs : s.Backed v loc) (ht : t.Backed v loc') :
    (∃ e, s.visit ndebug fuel u = .error e ∧ t.visit ndebug fuel u = .error e) ∨
    ∃ o s' t', s.visit ndebug fuel u = .ok (o, s') ∧ t.visit ndebug fuel u = .ok (o, t') ∧
      Agree ips s' t' := by
  have hblack : isIpaddrBlacklisted t.blacklistThreshold t.statsList u.src.ip
      = isIpaddrBlacklisted s.blacklistThreshold s.statsList u.src.ip := by
    rw [isIpaddrBlacklisted, isIpaddrBlacklisted, h.threshold, h.scores _ hu]
  have hidle' : 0 < t.idle := Nat.lt_of_lt_of_le hidle h.idle
  rw [visit_eq, visit_eq, hblack, h.env, if_neg hidle.ne', if_neg hidle'.ne']
  by_cases hdrop : isIpaddrBlacklisted s.blacklistThreshold s.statsList u.src.ip = true
  · rw [if_pos hdrop, if_pos hdrop]
    exact Or.inr ⟨_, _, _, rfl, rfl, h⟩
  · rw [if_neg hdrop, if_neg hdrop]
    cases handleConnection ndebug s.env u.answers fuel u.errno u.inbound u.src.ip.text with
    | error fault =>
        cases hstops : fault.stops with
        | some e =>
            simp only [hstops]
            exact Or.inl ⟨e, rfl, rfl⟩
        | none =>
            simp only [hstops]
            exact Or.inr ⟨_, _, _, rfl, rfl, rfl, h.threshold, h.scores,
              Nat.sub_le_sub_right h.idle 1⟩
    | ok handled =>
        cases handled with
        | none => exact Or.inr ⟨_, _, _, rfl, rfl, h⟩
        | some p =>
            -- Both have one score to add to, so both can or neither can.
            have hfinal := h.final u.src.ip hu p.goodRequest
            rcases updateIpAddrStats_backed s u.src.ip p.goodRequest hworks loc hs
              (ip_nonEmpty u.src) with ⟨hrange, hover⟩ |
                ⟨ret, s', hrange, hok, henv, _, hthreshold, hkept, _, hlookup⟩
            · rcases updateIpAddrStats_backed t u.src.ip p.goodRequest hworks loc' ht
                (ip_nonEmpty u.src) with ⟨_, hover'⟩ | ⟨_, _, hrange', _⟩
              · simp only [hover, hover']
                exact Or.inl ⟨_, rfl, rfl⟩
              · exact absurd (hfinal ▸ hrange') hrange
            · rcases updateIpAddrStats_backed t u.src.ip p.goodRequest hworks loc' ht
                (ip_nonEmpty u.src) with ⟨hrange', _⟩ |
                  ⟨ret', t', _, hok', henv', _, hthreshold', hkept', _, hlookup'⟩
              · exact absurd (hfinal.symm ▸ hrange) hrange'
              · simp only [hok, hok']
                refine Or.inr ⟨_, _, _, rfl, rfl, ?_, ?_, fun a ha => ?_, ?_⟩
                · rw [henv', henv, h.env]
                · rw [hthreshold', hthreshold, h.threshold]
                · rw [hlookup', hlookup, hfinal, h.scores a ha]
                · rw [hkept', hkept]
                  exact h.idle

/-- The first visit of a run, and the rest of it. -/
theorem visits_cons (s : Serving sq) (u : Visit) (vs : List Visit) (os : List (InAddr × Outcome))
    (s' : Serving sq) (hrun : s.visits ndebug fuel (u :: vs) = .ok (os, s')) :
    ∃ o s₁ os₁, s.visit ndebug fuel u = .ok (o, s₁) ∧
      s₁.visits ndebug fuel vs = .ok (os₁, s') ∧ os = (u.src, o) :: os₁ := by
  rw [Serving.visits] at hrun
  cases hone : s.visit ndebug fuel u with
  | error e =>
      rw [hone] at hrun
      exact absurd hrun (by simp only [reduceCtorEq, not_false_eq_true])
  | ok one =>
      rcases one with ⟨o, s₁⟩
      simp only [hone] at hrun
      cases hrest : s₁.visits ndebug fuel vs with
      | error e =>
          rw [hrest] at hrun
          exact absurd hrun (by simp only [reduceCtorEq, not_false_eq_true])
      | ok rest =>
          rcases rest with ⟨os₁, s₂⟩
          rw [hrest, Except.ok.injEq, Prod.mk.injEq] at hrun
          exact ⟨o, s₁, os₁, rfl, hrun.2 ▸ hrest, hrun.1.symm⟩

/-- A run of visits one part after the other. -/
theorem visits_append (s : Serving sq) (vs ws : List Visit) :
    s.visits ndebug fuel (vs ++ ws) = match s.visits ndebug fuel vs with
      | .error e => .error e
      | .ok (os, s') => match s'.visits ndebug fuel ws with
        | .error e => .error e
        | .ok (os', s'') => .ok (os ++ os', s'') := by
  induction vs generalizing s with
  | nil =>
      rw [List.nil_append, Serving.visits]
      simp only [List.nil_append]
      split
      · rename_i e he
        exact he
      · rename_i os s' hok
        exact hok
  | cons u vs ih =>
      rw [List.cons_append, Serving.visits, Serving.visits]
      cases s.visit ndebug fuel u with
      | error e => rfl
      | ok one =>
          simp only [ih]
          cases one.2.visits ndebug fuel vs with
          | error e => rfl
          | ok rest =>
              simp only
              cases rest.2.visits ndebug fuel ws with
              | error e => rfl
              | ok last => rfl

/-- Some worker is left at every point of the run. -/
def Serving.Staffed (s : Serving sq) (vs : List Visit) : Prop :=
  ∀ before os s', before <+: vs → s.visits ndebug fuel before = .ok (os, s') → 0 < s'.idle

theorem Serving.Staffed.now {s : Serving sq} {vs : List Visit} (h : s.Staffed ndebug fuel vs) :
    0 < s.idle :=
  h [] [] s List.nil_prefix rfl

/-- The first part of a run. -/
theorem Serving.Staffed.left {s : Serving sq} {vs ws : List Visit}
    (h : s.Staffed ndebug fuel (vs ++ ws)) : s.Staffed ndebug fuel vs :=
  fun before os s' hbefore hrun => h before os s' (hbefore.trans (List.prefix_append vs ws)) hrun

/-- The rest of a run. -/
theorem Serving.Staffed.right {s : Serving sq} {vs ws : List Visit} {os : List (InAddr × Outcome)}
    {s' : Serving sq} (h : s.Staffed ndebug fuel (vs ++ ws))
    (hrun : s.visits ndebug fuel vs = .ok (os, s')) : s'.Staffed ndebug fuel ws := by
  intro before os' s'' hbefore hrest
  refine h (vs ++ before) (os ++ os') s'' ((List.prefix_append_right_inj vs).mpr hbefore) ?_
  rw [visits_append, hrun]
  simp only [hrest]

/-- The visits behind the first. -/
theorem Serving.Staffed.tail {s : Serving sq} {u : Visit} {vs : List Visit} {o : Outcome}
    {s' : Serving sq} (h : s.Staffed ndebug fuel (u :: vs))
    (hone : s.visit ndebug fuel u = .ok (o, s')) : s'.Staffed ndebug fuel vs := by
  have hrun : s.visits ndebug fuel [u] = .ok ([(u.src, o)], s') := by
    simp only [Serving.visits, hone]
  have happend : s.Staffed ndebug fuel ([u] ++ vs) := h
  exact happend.right ndebug fuel hrun

/-- The same visits on two servers that agree about everybody. -/
theorem visits_agree (hworks : sq.Works v) (s t : Serving sq) (h : Agree (fun _ => True) s t)
    (vs : List Visit) (hstaffed : s.Staffed ndebug fuel vs) (loc loc' : v.File)
    (hs : s.Backed v loc) (ht : t.Backed v loc') :
    (∃ e, s.visits ndebug fuel vs = .error e ∧ t.visits ndebug fuel vs = .error e) ∨
    ∃ os s' t', s.visits ndebug fuel vs = .ok (os, s') ∧ t.visits ndebug fuel vs = .ok (os, t') ∧
      Agree (fun _ => True) s' t' := by
  -- On the visits, the two servers left open.
  induction vs generalizing s t with
  | nil => exact Or.inr ⟨[], s, t, rfl, rfl, h⟩
  | cons u vs ih =>
      rw [Serving.visits, Serving.visits]
      rcases visit_agree ndebug fuel hworks _ s t h hstaffed.now u trivial loc loc' hs ht with
        ⟨e, he, he'⟩ | ⟨o, s₁, t₁, hok, hok', hagree⟩
      · rw [he, he']
        exact Or.inl ⟨e, rfl, rfl⟩
      · have hs₁ := (visit_backed ndebug fuel hworks s u loc hs o s₁ hok).backed
        have ht₁ := (visit_backed ndebug fuel hworks t u loc' ht o t₁ hok').backed
        rw [hok, hok']
        rcases ih s₁ t₁ hagree (hstaffed.tail ndebug fuel hok) hs₁ ht₁ with
          ⟨e, he, he'⟩ | ⟨os, s', t', hrun, hrun', hlast⟩
        · simp only [he, he']
          exact Or.inl ⟨e, rfl, rfl⟩
        · simp only [hrun, hrun']
          exact Or.inr ⟨_, s', t', rfl, rfl, hlast⟩

/-- Visits leave a server that opens a file with its scores. -/
theorem visits_backed (hworks : sq.Works v) (s : Serving sq) (vs : List Visit) (loc : v.File)
    (h : s.Backed v loc) (os : List (InAddr × Outcome)) (s' : Serving sq)
    (hrun : s.visits ndebug fuel vs = .ok (os, s')) :
    s'.Backed v loc ∧ s'.env = s.env ∧ s'.blacklistThreshold = s.blacklistThreshold ∧
      s'.idle ≤ s.idle := by
  induction vs generalizing s os with
  | nil =>
      rw [Serving.visits, Except.ok.injEq, Prod.mk.injEq] at hrun
      rw [← hrun.2]
      exact ⟨h, rfl, rfl, Nat.le_refl _⟩
  | cons u vs ih =>
      rcases visits_cons ndebug fuel s u vs os s' hrun with ⟨o, s₁, os₁, hone, hrest, _⟩
      have h₁ := visit_backed ndebug fuel hworks s u loc h o s₁ hone
      rcases ih s₁ h₁.backed os₁ hrest with ⟨h₂, henv, hthreshold, hidle⟩
      exact ⟨h₂, henv.trans h₁.env, hthreshold.trans h₁.threshold, hidle.trans h₁.idle⟩

/-- A run at whose end some worker is left. -/
theorem staffed_of_run (hworks : sq.Works v) (s : Serving sq) (vs : List Visit) (loc : v.File)
    (h : s.Backed v loc) (os : List (InAddr × Outcome)) (s' : Serving sq)
    (hrun : s.visits ndebug fuel vs = .ok (os, s')) (hidle : 0 < s'.idle) :
    s.Staffed ndebug fuel vs := by
  rintro before os₁ s₁ ⟨rest, rfl⟩ hbefore
  rw [visits_append, hbefore] at hrun
  have h₁ := (visits_backed ndebug fuel hworks s before loc h os₁ s₁ hbefore).1
  cases hrest : s₁.visits ndebug fuel rest with
  | error e => exact absurd hrun (by simp only [hrest, reduceCtorEq, not_false_eq_true])
  | ok last =>
      simp only [hrest, Except.ok.injEq, Prod.mk.injEq] at hrun
      have hle := (visits_backed ndebug fuel hworks s₁ rest loc h₁ last.1 last.2 hrest).2.2.2
      rw [hrun.2] at hle
      exact Nat.lt_of_lt_of_le hidle hle

/-- The visits of one address on their own, on a server that agrees about it. -/
theorem visits_filter (hworks : sq.Works v) (s t : Serving sq) (addr : InAddr)
    (h : Agree (fun ip => ip = addr.ip) s t) (vs : List Visit)
    (hstaffed : s.Staffed ndebug fuel vs) (loc loc' : v.File) (hs : s.Backed v loc)
    (ht : t.Backed v loc') (os : List (InAddr × Outcome)) (s' : Serving sq)
    (hrun : s.visits ndebug fuel vs = .ok (os, s')) :
    ∃ t', t.visits ndebug fuel (vs.filter (fun u => u.src = addr))
        = .ok (os.filter (fun o => o.1 = addr), t') ∧
      Agree (fun ip => ip = addr.ip) s' t' := by
  induction vs generalizing s t os with
  | nil =>
      rw [Serving.visits, Except.ok.injEq, Prod.mk.injEq] at hrun
      rcases hrun with ⟨rfl, rfl⟩
      exact ⟨t, rfl, h⟩
  | cons u vs ih =>
      rcases visits_cons ndebug fuel s u vs os s' hrun with ⟨o, s₁, os₁, hone, hrest, rfl⟩
      have hs₁ := visit_backed ndebug fuel hworks s u loc hs o s₁ hone
      have hstaffed₁ := hstaffed.tail ndebug fuel hone
      by_cases hmine : u.src = addr
      · -- The other server has the visit too.
        rcases visit_agree ndebug fuel hworks _ s t h hstaffed.now u (congrArg InAddr.ip hmine) loc
          loc' hs ht with ⟨e, he, _⟩ | ⟨o', s₁', t₁, hok, hok', hagree⟩
        · rw [hone] at he
          exact absurd he (by simp only [reduceCtorEq, not_false_eq_true])
        · rw [hone, Except.ok.injEq, Prod.mk.injEq] at hok
          rcases hok with ⟨rfl, rfl⟩
          have ht₁ := (visit_backed ndebug fuel hworks t u loc' ht o t₁ hok').backed
          rcases ih s₁ t₁ hagree hstaffed₁ hs₁.backed ht₁ os₁ hrest with ⟨t', hrun', hlast⟩
          refine ⟨t', ?_, hlast⟩
          rw [List.filter_cons_of_pos (by rwa [decide_eq_true_eq]),
            List.filter_cons_of_pos (by rwa [decide_eq_true_eq]), Serving.visits, hok']
          simp only [hrun']
      · -- It leaves the score of `addr` alone.
        have hother : addr.ip ≠ u.src.ip := fun heq => hmine (ip_injective heq.symm)
        have hagree : Agree (fun ip => ip = addr.ip) s₁ t := by
          refine ⟨h.env.trans hs₁.env.symm, h.threshold.trans hs₁.threshold.symm, ?_,
            hs₁.idle.trans h.idle⟩
          rintro ip rfl
          rw [h.scores _ rfl, hs₁.others _ hother]
        rcases ih s₁ t hagree hstaffed₁ hs₁.backed ht os₁ hrest with ⟨t', hrun', hlast⟩
        refine ⟨t', ?_, hlast⟩
        rw [List.filter_cons_of_neg (by rwa [decide_eq_true_eq]),
          List.filter_cons_of_neg (by rwa [decide_eq_true_eq])]
        exact hrun'

end Visit

section Life

variable {sq : Sqlite} {v : sq.View} (fs : FileSystem) (binds : Nat → Bool)
  (loguru : Bytes → Option Stop) (cwd : Location) (w : sq.World) (opts : List CliOpt)
  (argv0 : Bytes) (l : Launched sq)

/-- A server that finds its database opens a file with its scores. -/
theorem launched_backed (hworks : sq.Works v)
    (h : serverMain fs binds loguru cwd w opts argv0 = .ok l)
    (hmade : ∀ loc, v.place cwd l.serving.dbFile = some (.file loc) → v.ServerMade w loc)
    (hplaces : v.place l.serving.env.cwd l.serving.dbFile = v.place cwd l.serving.dbFile) :
    ∃ loc, v.place cwd l.serving.dbFile = some (.file loc) ∧ l.serving.Backed v loc := by
  rcases launched fs binds loguru cwd w opts argv0 l hworks h hmade with
    ⟨loc, table, hplace, _, hscores, hrange, hnonEmpty, hsame, _⟩
  exact ⟨loc, hplace, table, by rw [hplaces, hplace], hscores, hrange, hnonEmpty, hsame⟩

/-- **A client gets what it would get without the others**: no two addresses have one
    score, and in every run of visits to a server that finds its database, as long as
    some worker is left, the outcomes of one address, and the score it is left with, are
    those of a run of its own visits alone. -/
theorem clients_isolated (ndebug : Bool) (fuel : Nat) (hworks : sq.Works v)
    (h : serverMain fs binds loguru cwd w opts argv0 = .ok l)
    (hmade : ∀ loc, v.place cwd l.serving.dbFile = some (.file loc) → v.ServerMade w loc)
    (hplaces : v.place l.serving.env.cwd l.serving.dbFile = v.place cwd l.serving.dbFile)
    (addr : InAddr) (vs : List Visit) (hstaffed : l.serving.Staffed ndebug fuel vs)
    (os : List (InAddr × Outcome)) (s : Serving sq)
    (hrun : l.serving.visits ndebug fuel vs = .ok (os, s)) :
    Function.Injective InAddr.ip ∧
    ∃ s', l.serving.visits ndebug fuel (vs.filter (fun u => u.src = addr))
        = .ok (os.filter (fun o => o.1 = addr), s') ∧
      Finmap.lookup addr.ip s'.statsList = Finmap.lookup addr.ip s.statsList := by
  rcases launched_backed fs binds loguru cwd w opts argv0 l hworks h hmade hplaces with
    ⟨loc, _, hbacked⟩
  rcases visits_filter ndebug fuel hworks l.serving l.serving addr (Agree.refl _ _) vs hstaffed loc
    loc hbacked hbacked os s hrun with ⟨s', hrun', hagree⟩
  exact ⟨ip_injective, s', hrun', hagree.scores _ rfl⟩

/-- The same visits on a server that is started anew for every session, and on one
    that agrees with the first of these servers and is not. -/
theorem sessions_agree (ndebug : Bool) (fuel : Nat) (hworks : sq.Works v) (s : Serving sq)
    (vss : List (List Visit)) (hstaffed : s.Staffed ndebug fuel vss.flatten) (loc loc' : v.File)
    (h : serverMain fs binds loguru cwd w opts argv0 = .ok l)
    (hplace : v.place cwd l.serving.dbFile = some (.file loc))
    (hagree : Agree (fun _ => True) s l.serving) (hs : s.Backed v loc')
    (hl : l.serving.Backed v loc) :
    (∃ e, s.visits ndebug fuel vss.flatten = .error e ∧
      sessions ndebug fuel (fun w => serverMain fs binds loguru cwd w opts argv0) w vss
        = .error e) ∨
    ∃ os s' w' l', s.visits ndebug fuel vss.flatten = .ok (os, s') ∧
      sessions ndebug fuel (fun w => serverMain fs binds loguru cwd w opts argv0) w vss
        = .ok (os, w') ∧
      serverMain fs binds loguru cwd w' opts argv0 = .ok l' ∧
      Agree (fun _ => True) s' l'.serving := by
  -- On the sessions, the databases and the two servers left open.
  induction vss generalizing w l s with
  | nil => exact Or.inr ⟨[], s, w, l, rfl, rfl, h, hagree⟩
  | cons vs vss ih =>
      rw [List.flatten_cons] at hstaffed
      rw [List.flatten_cons, visits_append, sessions]
      simp only [h]
      rcases visits_agree ndebug fuel hworks s l.serving hagree vs hstaffed.left loc' loc hs hl with
        ⟨e, he, he'⟩ | ⟨os, s₁, t₁, hrun, hrun', hagree₁⟩
      · simp only [he, he']
        exact Or.inl ⟨e, rfl, rfl⟩
      · simp only [hrun, hrun']
        have hs₁ := (visits_backed ndebug fuel hworks s vs loc' hs os s₁ hrun).1
        rcases visits_backed ndebug fuel hworks l.serving vs loc hl os t₁ hrun' with
          ⟨⟨table, ht₁⟩, henv, hthreshold, hidle⟩
        rcases relaunch fs binds loguru cwd w opts argv0 l hworks h t₁ loc table hplace ht₁ with
          ⟨l₁, hagain, henv₁, hfile₁, hthreshold₁, hidle₁, hscores, hsame⟩
        -- The server started next is as the one before was left, with all its workers.
        have hl₁ : l₁.serving.Backed v loc := by
          rcases hl with ⟨_, hl⟩
          exact ⟨table, by rw [henv₁, hfile₁, hl.place], hscores, ht₁.inRange, ht₁.nonEmpty, hsame⟩
        have hagree' : Agree (fun _ => True) s₁ l₁.serving := by
          refine ⟨?_, ?_, fun ip hip => ?_, ?_⟩
          · rw [henv₁, ← henv, hagree₁.env]
          · rw [hthreshold₁, ← hthreshold, hagree₁.threshold]
          · rw [hsame, ← ht₁.same, hagree₁.scores ip hip]
          · rw [hidle₁]
            exact hagree₁.idle.trans hidle
        rcases ih t₁.world l₁ s₁ (hstaffed.right ndebug fuel hrun) hagain (by rw [hfile₁, hplace])
          hagree' hs₁ hl₁ with ⟨e, he, he'⟩ | ⟨os', s', w', l', hrest, hrest', hlast, hagree''⟩
        · simp only [he, he']
          exact Or.inl ⟨e, rfl, rfl⟩
        · simp only [hrest, hrest']
          exact Or.inr ⟨_, s', w', l', rfl, rfl, hlast, hagree''⟩

/-- **A client gets what it would get without the restarts**: a server that finds its
    database and is killed and started again by the same command between any visits
    has the outcomes of one that is not, as long as that one has some worker left, up to
    the visit that ends it if there is one, and leaves the scores that one has in
    memory. -/
theorem restarts_unnoticed (ndebug : Bool) (fuel : Nat) (hworks : sq.Works v)
    (h : serverMain fs binds loguru cwd w opts argv0 = .ok l)
    (hmade : ∀ loc, v.place cwd l.serving.dbFile = some (.file loc) → v.ServerMade w loc)
    (hplaces : v.place l.serving.env.cwd l.serving.dbFile = v.place cwd l.serving.dbFile)
    (vss : List (List Visit)) (hstaffed : l.serving.Staffed ndebug fuel vss.flatten) :
    (sessions ndebug fuel (fun w => serverMain fs binds loguru cwd w opts argv0) w vss).map
        Prod.fst
      = (l.serving.visits ndebug fuel vss.flatten).map Prod.fst ∧
    ∀ os s, l.serving.visits ndebug fuel vss.flatten = .ok (os, s) →
      ∃ w' l', sessions ndebug fuel (fun w => serverMain fs binds loguru cwd w opts argv0) w vss
          = .ok (os, w') ∧
        serverMain fs binds loguru cwd w' opts argv0 = .ok l' ∧
        ∀ ip, Finmap.lookup ip l'.serving.statsList = Finmap.lookup ip s.statsList := by
  rcases launched_backed fs binds loguru cwd w opts argv0 l hworks h hmade hplaces with
    ⟨loc, hplace, hbacked⟩
  rcases sessions_agree fs binds loguru cwd w opts argv0 l ndebug fuel hworks l.serving vss
    hstaffed loc loc h hplace (Agree.refl _ _) hbacked hbacked with
    ⟨e, he, he'⟩ | ⟨os, s, w', l', hrun, hrun', hlast, hagree⟩
  · rw [he, he']
    refine ⟨rfl, fun os s hok => absurd hok (by simp only [reduceCtorEq, not_false_eq_true])⟩
  · rw [hrun, hrun']
    refine ⟨rfl, fun os' s' hok => ?_⟩
    rw [Except.ok.injEq, Prod.mk.injEq] at hok
    rcases hok with ⟨rfl, rfl⟩
    exact ⟨w', l', rfl, hlast, fun ip => hagree.scores ip trivial⟩

end Life

/-- A request that counts as a bad one. -/
def badVisit (src : InAddr) : Visit :=
  ⟨src, [some "POST / HTTP/1.1\r\n\r\n".toList], fun _ => some 4096, 0⟩

def firstClient : InAddr := ⟨10, 0, 0, 1⟩

def otherClient : InAddr := ⟨10, 0, 0, 2⟩

/-- A client that comes back after its bad request, and another one in between. -/
def badVisits : List Visit := [badVisit firstClient, badVisit otherClient, badVisit firstClient]

/-- Its handler processes the two lines of it. -/
theorem handleConnection_badVisit (env : Env) (src : InAddr) (text : Bytes) :
    handleConnection true env (badVisit src).answers 5 (badVisit src).errno (badVisit src).inbound
        text
      = processRequest true env (fun _ => some 4096) 5 0
        ["POST / HTTP/1.1\r\n".toList, "\r\n".toList] text := by
  have hlines : receiveLines defaultBufferSize (badVisit src).inbound
      = some ["POST / HTTP/1.1\r\n".toList, "\r\n".toList] := by
    rw [badVisit, receiveLines_chunk defaultBufferSize _ [] (by decide) (by decide)]
    decide
  rw [handleConnection, hlines]
  rfl

/-- What each of them gets from a server with the threshold at zero. -/
theorem badVisits_run :
    ∃ l os s,
      serverMain shelves (fun _ => true) (fun _ => none) [] freshDisk [.T ['0']] [] = .ok l ∧
      l.serving.env.cwd = [] ∧ l.serving.Staffed true 5 badVisits ∧
      l.serving.visits true 5 badVisits = .ok (os, s) ∧
      os.map (fun o => (o.1, decide (o.2 = .dropped)))
        = [(firstClient, false), (otherClient, false), (firstClient, true)] := by
  have hup : (serverMain shelves (fun _ => true) (fun _ => none) [] freshDisk [.T ['0']]
      []).toOption.map (fun l => (l.serving.env.cwd,
        (l.serving.visits true 5 badVisits).toOption.map (fun r =>
          (r.2.idle, r.1.map (fun o => (o.1, decide (o.2 = .dropped)))))))
      = some ([], some (5, [(firstClient, false), (otherClient, false), (firstClient, true)])) := by
    simp only [badVisits, Serving.visits, visit_eq, handleConnection_badVisit]
    decide +kernel
  cases hmain : serverMain shelves (fun _ => true) (fun _ => none) [] freshDisk [.T ['0']] [] with
  | error e =>
      rw [hmain] at hup
      exact absurd hup (by simp only [Except.toOption, Option.map_none, reduceCtorEq,
        not_false_eq_true])
  | ok l =>
      rw [hmain] at hup
      have hparts := Prod.mk.inj (Option.some.inj hup)
      cases hrun : l.serving.visits true 5 badVisits with
      | error e =>
          rw [hrun] at hparts
          exact absurd hparts.2 (by simp only [Except.toOption, Option.map_none, reduceCtorEq,
            not_false_eq_true])
      | ok r =>
          rw [hrun] at hparts
          have hlast := Prod.mk.inj (Option.some.inj hparts.2)
          rcases launched_backed shelves (fun _ => true) (fun _ => none) [] freshDisk [.T ['0']] []
            l (storeEngine_works shelves) hmain (fun loc _ => freshDisk_made loc) (by rw [hparts.1])
            with ⟨loc, _, hbacked⟩
          have hstaffed := staffed_of_run true 5 (storeEngine_works shelves) l.serving badVisits loc
            hbacked r.1 r.2 hrun (by rw [hlast.1]; decide)
          exact ⟨l, r.1, r.2, rfl, hparts.1, hstaffed, hrun, hlast.2⟩

/-- The client that comes back is dropped, also where it is the only one. -/
theorem clients_isolated_badVisits :
    ∃ l os s,
      serverMain shelves (fun _ => true) (fun _ => none) [] freshDisk [.T ['0']] [] = .ok l ∧
      l.serving.visits true 5 [badVisit firstClient, badVisit firstClient] = .ok (os, s) ∧
      os.map (fun o => (o.1, decide (o.2 = .dropped)))
        = [(firstClient, false), (firstClient, true)] := by
  rcases badVisits_run with ⟨l, os, s, hmain, hcwd, hstaffed, hrun, houtcomes⟩
  rcases (clients_isolated shelves (fun _ => true) (fun _ => none) [] freshDisk [.T ['0']] [] l
    true 5 (storeEngine_works shelves) hmain (fun loc _ => freshDisk_made loc) (by rw [hcwd])
    firstClient badVisits hstaffed os s hrun).2 with ⟨s', halone, _⟩
  refine ⟨l, _, s', hmain, halone, ?_⟩
  have hmap := congrArg (List.filter (fun o => o.1 = firstClient)) houtcomes
  rw [List.filter_map] at hmap
  exact hmap

/-- It is dropped by the process that was started in between. -/
theorem restarts_unnoticed_badVisits :
    ∃ os w', sessions true 5
        (fun w => serverMain shelves (fun _ => true) (fun _ => none) [] w [.T ['0']] []) freshDisk
        [[badVisit firstClient, badVisit otherClient], [badVisit firstClient]]
        = .ok (os, w') ∧
      os.map (fun o => (o.1, decide (o.2 = .dropped)))
        = [(firstClient, false), (otherClient, false), (firstClient, true)] := by
  rcases badVisits_run with ⟨l, os, s, hmain, hcwd, hstaffed, hrun, houtcomes⟩
  rcases (restarts_unnoticed shelves (fun _ => true) (fun _ => none) [] freshDisk [.T ['0']] [] l
    true 5 (storeEngine_works shelves) hmain (fun loc _ => freshDisk_made loc) (by rw [hcwd])
    [[badVisit firstClient, badVisit otherClient], [badVisit firstClient]] hstaffed).2 os s
    hrun with ⟨w', _, hagain, _⟩
  exact ⟨os, w', hagain, houtcomes⟩

end HttpFileSharing
