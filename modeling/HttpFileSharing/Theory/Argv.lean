import HttpFileSharing.Core.Argv
import HttpFileSharing.Theory.DiskLedger

/-!
# What the Command Line Says

Which command lines the server starts with, and what it takes from them. A command
line is accepted if it is made of the pieces that `getopt` knows, with letters of the
option string, up to its end or two dashes, if no help is asked for, and if what is
to be a number begins like one. Then each option has the value of the last argument
given for it, and those that were not given have their defaults. In which order, and
in which of the ways of writing, makes no difference otherwise.

The help names an option `-b` for the length of the queue of connections. It has no
letter in the option string, so whoever gives it gets no server.

## Main definitions

* `Got.argOf`, `lastArg`: The argument given for an option.
* `readOr`: A number, or its default.
* `settings`: What is taken from a command line.
* `Readable`: An option that does not end the process.
* `CliOpt.toOpt`: What the handling of requests depends on.

## Theorems

* `parseOpt_settings`: One more option.
* `parse_iff`: What the options have to be, and what is taken from them.
* `accepted_iff`: What the command line has to be.
* `backlog_refused`: No server for whoever gives `-b`.
* `startup_of_serverMain`: What a server handles requests with.
-/

namespace HttpFileSharing

/-- The argument given for an option. -/
def Got.argOf (c : Char) : Got → Option Bytes
  | .arg d optarg => if d = c then some optarg else none
  | _ => none

/-- The last argument given for an option. -/
def lastArg (c : Char) (gs : List Got) : Option Bytes :=
  gs.foldl (fun last g => (g.argOf c).or last) none

/-- A number, or its default where there is none. -/
def readOr (default : Int) (optarg : Option Bytes) : Int :=
  match optarg with
  | some optarg => match stoi optarg with
    | .ok n => n
    | .error _ => default
  | none => default

/-- The directory given, or its default. -/
def dirOr (default : Bytes) (optarg : Option Bytes) : Bytes :=
  match optarg with
  | some optarg => match ({} : ProgOptions).setDir optarg with
    | .ok options => options.dir
    | .error _ => default
  | none => default

/-- What is taken from a command line. -/
def settings (gs : List Got) : CommandLine where
  port := readOr 80 (lastArg 'p' gs)
  options := {
    dir := dirOr ['.'] (lastArg 'd' gs)
    verbose := decide (Got.flag 'V' ∈ gs)
    serverName := cStr ((lastArg 'n' gs).getD []) }
  tpoolSize := (readOr 5 (lastArg 't' gs) % 2 ^ 32).toNat
  tcpBacklogSize := 5
  logFile := cStr ((lastArg 'l' gs).getD [])
  dbFile := cStr ((lastArg 'D' gs).getD [])
  blacklistThreshold := readOr (-15) (lastArg 'T' gs)

/-- An option that does not end the process: not the help, not an empty directory,
    and a number where one is expected. -/
def Readable : Got → Prop
  | .flag 'h' => False
  | .arg 'd' optarg => cStr optarg ≠ []
  | .arg 'p' optarg | .arg 't' optarg | .arg 'T' optarg => ∃ n, stoi optarg = .ok n
  | _ => True

theorem lastArg_snoc (c : Char) (gs : List Got) (g : Got) :
    lastArg c (gs ++ [g]) = (g.argOf c).or (lastArg c gs) := by
  rw [lastArg, List.foldl_append]
  rfl

/-- A directory is taken unless it is empty, whatever the other options are. -/
theorem setDir_eq (options : ProgOptions) (optarg : Bytes) :
    (cStr optarg ≠ [] → options.setDir optarg
      = .ok { options with dir := dirOr ['.'] (some optarg) }) ∧
    (cStr optarg = [] → ∃ e, options.setDir optarg = .error e) := by
  constructor
  · intro hne
    have hpos := List.length_pos_iff.mpr hne
    have hindex : sizeSub (cStr optarg).length 1 < (cStr optarg).length := by
      unfold sizeSub
      omega
    have hchar := List.getElem?_eq_getElem hindex
    simp only [dirOr, ProgOptions.setDir, charAt, hchar]
  · intro hempty
    rw [ProgOptions.setDir, hempty]
    exact ⟨_, rfl⟩

/-- A letter that is no case of the switch. -/
theorem ofGot_flag (c : Char) (hV : c ≠ 'V') (hh : c ≠ 'h') (hv : c ≠ 'v') :
    CliOpt.ofGot (.flag c) = .unknown ∧ Readable (.flag c) := by
  simp [CliOpt.ofGot, Readable, hV, hh, hv]

/-- A letter with an argument that is no case of the switch. -/
theorem ofGot_arg (c : Char) (optarg : Bytes) (h : c ∉ ['d', 'p', 't', 'l', 'D', 'T', 'n']) :
    CliOpt.ofGot (.arg c optarg) = .unknown ∧ Readable (.arg c optarg) := by
  simp only [List.mem_cons, List.not_mem_nil, or_false, not_or] at h
  simp [CliOpt.ofGot, Readable, h]

/-- An option that sets nothing. -/
theorem settings_snoc (gs : List Got) (g : Got) (hV : g ≠ .flag 'V')
    (h : ∀ c ∈ ['d', 'p', 't', 'l', 'D', 'T', 'n'], g.argOf c = none) :
    settings (gs ++ [g]) = settings gs := by
  simp only [List.forall_mem_cons] at h
  rcases h with ⟨hd, hp, ht, hl, hD, hT, hn, -⟩
  have hmem : Got.flag 'V' ∈ gs ++ [g] ↔ Got.flag 'V' ∈ gs := by
    rw [List.mem_append, List.mem_singleton]
    exact ⟨fun hor => hor.resolve_right (fun heq => hV heq.symm), Or.inl⟩
  simp only [settings, lastArg_snoc, hd, hp, ht, hl, hD, hT, hn, Option.none_or, hmem]

/-- One more option with a number. -/
theorem number_settings (gs : List Got) (optarg : Bytes) (unknown : Bool)
    (set : Int → CommandLine) (st : CommandLine)
    (hset : ∀ n, stoi optarg = .ok n → set n = st) :
    ((∃ n, stoi optarg = .ok n) →
      CommandLine.number (settings gs, unknown) optarg set = .ok (st, unknown || false)) ∧
    ((¬ ∃ n, stoi optarg = .ok n) →
      ∃ e, CommandLine.number (settings gs, unknown) optarg set = .error e) := by
  rw [CommandLine.number, Bool.or_false]
  cases hn : stoi optarg with
  | ok n => exact ⟨fun _ => by rw [← hset n hn], fun hnot => absurd ⟨n, rfl⟩ hnot⟩
  | error e =>
      refine ⟨?_, fun _ => ⟨e, rfl⟩⟩
      rintro ⟨n, hok⟩
      exact absurd hok (by simp only [reduceCtorEq, not_false_eq_true])

/-- One more letter. -/
theorem parseOpt_flag (gs : List Got) (c : Char) (unknown : Bool) :
    (Readable (.flag c) → CommandLine.parseOpt (settings gs, unknown) (CliOpt.ofGot (.flag c))
      = .ok (settings (gs ++ [.flag c]),
        unknown || decide (CliOpt.ofGot (.flag c) = .unknown))) ∧
    (¬ Readable (.flag c) → ∃ e,
      CommandLine.parseOpt (settings gs, unknown) (CliOpt.ofGot (.flag c)) = .error e) := by
  by_cases hV : c = 'V'
  · subst hV
    refine ⟨fun _ => ?_, fun hnot => absurd trivial hnot⟩
    simp only [CliOpt.ofGot, CommandLine.parseOpt, settings, lastArg_snoc, Got.argOf,
      Option.none_or, reduceCtorEq, decide_false, Bool.or_false, List.mem_append,
      List.mem_singleton, or_true, decide_true]
  have hsame := settings_snoc gs (.flag c) (fun heq => hV (Got.flag.inj heq)) (fun _ _ => rfl)
  by_cases hh : c = 'h'
  · subst hh
    exact ⟨fun hfalse => absurd hfalse (fun h => h), fun _ => ⟨.exited, rfl⟩⟩
  by_cases hv : c = 'v'
  · subst hv
    refine ⟨fun _ => ?_, fun hnot => absurd trivial hnot⟩
    simp only [CliOpt.ofGot, CommandLine.parseOpt, hsame, reduceCtorEq, decide_false,
      Bool.or_false]
  rcases ofGot_flag c hV hh hv with ⟨hother, hreadable⟩
  refine ⟨fun _ => ?_, fun hnot => absurd hreadable hnot⟩
  simp only [hother, CommandLine.parseOpt, hsame, decide_true, Bool.or_true]

/-- One more letter with an argument. -/
theorem parseOpt_arg (gs : List Got) (c : Char) (optarg : Bytes) (unknown : Bool) :
    (Readable (.arg c optarg) →
      CommandLine.parseOpt (settings gs, unknown) (CliOpt.ofGot (.arg c optarg))
        = .ok (settings (gs ++ [.arg c optarg]),
          unknown || decide (CliOpt.ofGot (.arg c optarg) = .unknown))) ∧
    (¬ Readable (.arg c optarg) → ∃ e,
      CommandLine.parseOpt (settings gs, unknown) (CliOpt.ofGot (.arg c optarg)) = .error e) := by
  by_cases hknown : c ∈ ['d', 'p', 't', 'l', 'D', 'T', 'n']
  · simp only [List.mem_cons, List.not_mem_nil, or_false] at hknown
    rcases hknown with rfl | rfl | rfl | rfl | rfl | rfl | rfl
    · have hdir := setDir_eq (settings gs).options optarg
      simp only [CliOpt.ofGot, CommandLine.parseOpt, Readable]
      refine ⟨fun hne => ?_, fun hempty => ?_⟩
      · rw [hdir.1 hne]
        simp [settings, lastArg_snoc, Got.argOf]
      · rcases hdir.2 (not_not.mp hempty) with ⟨e, he⟩
        rw [he]
        exact ⟨_, rfl⟩
    · refine number_settings gs optarg unknown _ _ (fun n hn => ?_)
      simp [settings, lastArg_snoc, Got.argOf, readOr, hn]
    · refine number_settings gs optarg unknown _ _ (fun n hn => ?_)
      simp [settings, lastArg_snoc, Got.argOf, readOr, hn]
    · refine ⟨fun _ => ?_, fun hnot => absurd trivial hnot⟩
      simp [CliOpt.ofGot, CommandLine.parseOpt, settings, lastArg_snoc, Got.argOf]
    · refine ⟨fun _ => ?_, fun hnot => absurd trivial hnot⟩
      simp [CliOpt.ofGot, CommandLine.parseOpt, settings, lastArg_snoc, Got.argOf]
    · refine number_settings gs optarg unknown _ _ (fun n hn => ?_)
      simp [settings, lastArg_snoc, Got.argOf, readOr, hn]
    · refine ⟨fun _ => ?_, fun hnot => absurd trivial hnot⟩
      simp [CliOpt.ofGot, CommandLine.parseOpt, settings, lastArg_snoc, Got.argOf]
  · rcases ofGot_arg c optarg hknown with ⟨hother, hreadable⟩
    have hnone : ∀ d ∈ ['d', 'p', 't', 'l', 'D', 'T', 'n'], (Got.arg c optarg).argOf d = none := by
      intro d hd
      rw [Got.argOf, if_neg (fun heq : c = d => hknown (heq ▸ hd))]
    have hsame := settings_snoc gs (.arg c optarg) (by simp only [ne_eq, reduceCtorEq,
      not_false_eq_true]) hnone
    refine ⟨fun _ => ?_, fun hnot => absurd hreadable hnot⟩
    simp only [hother, CommandLine.parseOpt, hsame, decide_true, Bool.or_true]

/-- One more option: it is taken, or ends the process. -/
theorem parseOpt_settings (gs : List Got) (g : Got) (unknown : Bool) :
    (Readable g → CommandLine.parseOpt (settings gs, unknown) (CliOpt.ofGot g)
      = .ok (settings (gs ++ [g]), unknown || decide (CliOpt.ofGot g = .unknown))) ∧
    (¬ Readable g → ∃ e, CommandLine.parseOpt (settings gs, unknown) (CliOpt.ofGot g)
      = .error e) := by
  cases g with
  | flag c => exact parseOpt_flag gs c unknown
  | arg c optarg => exact parseOpt_arg gs c optarg unknown
  | bad c =>
      have hsame := settings_snoc gs (.bad c) (by simp only [ne_eq, reduceCtorEq,
        not_false_eq_true]) (fun _ _ => rfl)
      refine ⟨fun _ => ?_, fun hnot => absurd trivial hnot⟩
      simp only [CliOpt.ofGot, CommandLine.parseOpt, hsame, decide_true, Bool.or_true]

/-- Whether an option is not known. -/
def isUnknown (g : Got) : Bool := decide (CliOpt.ofGot g = .unknown)

/-- All options: what is taken from them and whether all were known, or that one of
    them ends the process. -/
theorem foldlM_settings (gs : List Got) :
    ((∀ g ∈ gs, Readable g) → (gs.map CliOpt.ofGot).foldlM CommandLine.parseOpt ({}, false)
      = .ok (settings gs, gs.any isUnknown)) ∧
    ((∃ g ∈ gs, ¬ Readable g) → ∃ e,
      (gs.map CliOpt.ofGot).foldlM CommandLine.parseOpt ({}, false) = .error e) := by
  -- On the options, the last one taken off.
  induction gs using List.reverseRecOn with
  | nil =>
      refine ⟨fun _ => rfl, ?_⟩
      rintro ⟨g, hg, _⟩
      exact absurd hg List.not_mem_nil
  | append_singleton gs g ih =>
      rw [List.map_append, List.foldlM_append, List.map_singleton]
      have hlast := parseOpt_settings gs g (gs.any isUnknown)
      by_cases hall : ∀ g ∈ gs, Readable g
      · rw [ih.1 hall]
        change (_ → (CommandLine.parseOpt (settings gs, gs.any isUnknown) (CliOpt.ofGot g)
          >>= pure) = _) ∧ (_ → ∃ e, (CommandLine.parseOpt (settings gs, gs.any isUnknown)
          (CliOpt.ofGot g) >>= pure) = .error e)
        rw [bind_pure]
        refine ⟨fun h => ?_, ?_⟩
        · rw [hlast.1 (h g (List.mem_append_right _ List.mem_cons_self)), List.any_append,
            List.any_cons, List.any_nil, Bool.or_false]
          rfl
        · rintro ⟨g', hg', hnot⟩
          rcases List.mem_append.mp hg' with hg' | hg'
          · exact absurd (hall g' hg') hnot
          · exact hlast.2 (List.mem_singleton.mp hg' ▸ hnot)
      · push Not at hall
        rcases ih.2 hall with ⟨e, he⟩
        rw [he]
        refine ⟨fun h => ?_, fun _ => ⟨e, rfl⟩⟩
        rcases hall with ⟨g', hg', hnot⟩
        exact absurd (h g' (List.mem_append_left _ hg')) hnot

/-- What the options have to be, and what is taken from them. -/
theorem parse_iff (gs : List Got) (commandLine : CommandLine) (known : Bool) :
    CommandLine.parse (gs.map CliOpt.ofGot) = .ok (commandLine, known) ↔
      (∀ g ∈ gs, Readable g) ∧ commandLine = settings gs ∧ known = !gs.any isUnknown := by
  rw [CommandLine.parse]
  by_cases hall : ∀ g ∈ gs, Readable g
  · rw [(foldlM_settings gs).1 hall]
    simp only [Except.ok.injEq, Prod.mk.injEq]
    exact ⟨fun h => ⟨hall, h.1.symm, h.2.symm⟩, fun h => ⟨h.2.1.symm, h.2.2.symm⟩⟩
  · have hsome := hall
    push Not at hsome
    rcases (foldlM_settings gs).2 hsome with ⟨e, he⟩
    rw [he]
    exact ⟨fun h => absurd h (by simp only [reduceCtorEq, not_false_eq_true]),
      fun h => absurd h.1 hall⟩

/-- The letters of the option string without an argument. -/
theorem flag_letters (c : Char) (hc : c ∈ optstring) (h : takesOf optstring c = some false) :
    isUnknown (.flag c) = false := by
  have hall : optstring.all (fun c => takesOf optstring c != some false ||
      !isUnknown (.flag c)) = true := by decide
  have hone := List.all_eq_true.mp hall c hc
  rw [h, bne_self_eq_false, Bool.false_or, Bool.not_eq_true'] at hone
  exact hone

/-- Those with one. -/
theorem arg_letters (c : Char) (hc : c ∈ optstring) (h : takesOf optstring c = some true) :
    c ∈ ['d', 'p', 't', 'l', 'D', 'T', 'n'] := by
  have hall : optstring.all (fun c => takesOf optstring c != some true ||
      decide (c ∈ ['d', 'p', 't', 'l', 'D', 'T', 'n'])) = true := by decide
  have hone := List.all_eq_true.mp hall c hc
  rw [h, bne_self_eq_false, Bool.false_or, decide_eq_true_eq] at hone
  exact hone

/-- The letters of the option string are cases of the switch. -/
theorem isUnknown_of_fits (g : Got) (h : g.Fits (takesOf optstring)) :
    isUnknown g = g.isBad := by
  cases g with
  | bad c => rfl
  | flag c => exact flag_letters c (mem_of_takesOf optstring c false h) h
  | arg c optarg =>
      have hmem := arg_letters c (mem_of_takesOf optstring c true h) h
      simp only [List.mem_cons, List.not_mem_nil, or_false] at hmem
      rcases hmem with rfl | rfl | rfl | rfl | rfl | rfl | rfl <;> rfl

/-- A command line is accepted if nothing is reported and every option can be read. -/
theorem argvOpts_iff (bin : Bytes) (ws : List Bytes) (commandLine : CommandLine) :
    CommandLine.parse (argvOpts (bin :: ws)) = .ok (commandLine, true) ↔
      (∀ g ∈ getopt (takesOf optstring) ws, Readable g ∧ g.isBad = false) ∧
        commandLine = settings (getopt (takesOf optstring) ws) := by
  rw [argvOpts, List.tail_cons, parse_iff]
  have hunknown : (true = !(getopt (takesOf optstring) ws).any isUnknown) ↔
      ∀ g ∈ getopt (takesOf optstring) ws, g.isBad = false := by
    rw [eq_comm, Bool.not_eq_true', List.any_eq_false]
    refine forall₂_congr (fun g hg => ?_)
    rw [isUnknown_of_fits g (getopt_takes (takesOf optstring) ws g hg), Bool.not_eq_true]
  rw [hunknown]
  exact ⟨fun h => ⟨fun g hg => ⟨h.1 g hg, h.2.2 g hg⟩, h.2.1⟩,
    fun h => ⟨fun g hg => (h.1 g hg).1, h.2, fun g hg => (h.1 g hg).2⟩⟩

/-- **What the command line has to be**: it is accepted exactly if it is made of
    pieces, with the letters of the option string, up to its end or two dashes, and
    every option in them can be read. What is taken from it is what they stand for. -/
theorem accepted_iff (bin : Bytes) (ws : List Bytes) (commandLine : CommandLine) :
    CommandLine.parse (argvOpts (bin :: ws)) = .ok (commandLine, true) ↔
      ∃ (ps : List Piece) (tail : List Bytes), ws = ps.flatMap Piece.words ++ tail ∧
        (∀ p ∈ ps, p.Valid (takesOf optstring)) ∧ (tail = [] ∨ ∃ rest, tail = ['-', '-'] :: rest) ∧
        (∀ g ∈ ps.flatMap Piece.meaning, Readable g) ∧
        commandLine = settings (ps.flatMap Piece.meaning) := by
  rw [argvOpts_iff]
  -- Behind the pieces nothing is read.
  have hread : ∀ (ps : List Piece) (tail : List Bytes), (∀ p ∈ ps, p.Valid (takesOf optstring)) →
      (tail = [] ∨ ∃ rest, tail = ['-', '-'] :: rest) →
      getopt (takesOf optstring) (ps.flatMap Piece.words ++ tail) = ps.flatMap Piece.meaning := by
    intro ps tail hps htail
    rw [getopt_pieces (takesOf optstring) ps hps]
    rcases htail with rfl | ⟨rest, rfl⟩
    · exact List.append_nil _
    · rw [getopt_dashes, List.append_nil]
  constructor
  · rintro ⟨hall, hsettings⟩
    rcases exists_pieces (takesOf optstring) ws (fun g hg => (hall g hg).2) with
      ⟨ps, tail, hws, hps, htail⟩
    rw [hws, hread ps tail hps htail] at hall hsettings
    exact ⟨ps, tail, hws, hps, htail, fun g hg => (hall g hg).1, hsettings⟩
  · rintro ⟨ps, tail, rfl, hps, htail, hreadable, hsettings⟩
    rw [hread ps tail hps htail]
    refine ⟨fun g hg => ⟨hreadable g hg, ?_⟩, hsettings⟩
    rcases List.mem_flatMap.mp hg with ⟨p, _, hp⟩
    exact isBad_meaning p g hp

/-- **No server for whoever gives `-b`**: with this option, which the help names,
    `main` ends before its loop, wherever the option stands, whatever it is given
    and whatever else is there. -/
theorem backlog_refused {sq : Sqlite} (fs : FileSystem) (binds : Nat → Bool)
    (loguru : Bytes → Option Stop) (cwd : Location) (w : sq.World) (bin : Bytes)
    (ps : List Piece) (hps : ∀ p ∈ ps, p.Valid (takesOf optstring)) (letters cs : List Char)
    (hletters : AllFlags (takesOf optstring) letters) (ws : List Bytes) :
    ∃ e, mainArgv fs binds loguru cwd w
      (bin :: (ps.flatMap Piece.words ++ ('-' :: (letters ++ 'b' :: cs)) :: ws)) = .error e := by
  have hdash : letters ++ 'b' :: cs ≠ ['-'] := by
    intro heq
    have hmem : 'b' ∈ letters ++ 'b' :: cs := List.mem_append_right _ List.mem_cons_self
    rw [heq] at hmem
    exact absurd hmem (by decide)
  have hbad := getopt_unknown (takesOf optstring) letters cs 'b' ws hletters (by decide) hdash
  rw [mainArgv, serverMain]
  cases hparse : CommandLine.parse (argvOpts
      (bin :: (ps.flatMap Piece.words ++ ('-' :: (letters ++ 'b' :: cs)) :: ws))) with
  | error e => exact ⟨e, rfl⟩
  | ok parsed =>
      rcases parsed with ⟨commandLine, known⟩
      cases known with
      | false => exact ⟨.exited, rfl⟩
      | true =>
          -- The report of the letter is among what was read.
          have hall := ((argvOpts_iff bin _ commandLine).mp hparse).1
          rw [getopt_pieces (takesOf optstring) ps hps] at hall
          exact absurd (hall _ (List.mem_append_right _ hbad)).2
            (by simp only [Got.isBad, Bool.true_eq_false, not_false_eq_true])

/-- A port and a length of the queue, as the help has them. -/
theorem backlog_refused_port :
    AllFlags (takesOf optstring) [] ∧
      ∃ e, mainArgv shelves (fun _ => true) (fun _ => none) [] freshDisk
        ["server".toList, "-p".toList, "8080".toList, "-b".toList, "10".toList] = .error e := by
  have hletters : AllFlags (takesOf optstring) [] := fun c hc => absurd hc List.not_mem_nil
  have hport : (Piece.apart [] 'p' "8080".toList).Valid (takesOf optstring) :=
    ⟨hletters, by decide, by decide⟩
  exact ⟨hletters, backlog_refused shelves (fun _ => true) (fun _ => none) [] freshDisk
    "server".toList [.apart [] 'p' "8080".toList] (List.forall_mem_singleton.mpr hport) [] []
    hletters ["10".toList]⟩

/-- What of an option the handling of requests depends on. -/
def CliOpt.toOpt : CliOpt → Opt
  | .d optarg => .d optarg
  | .V => .V
  | .n optarg => .n optarg
  | .unknown => .unknown
  | _ => .other

/-- One option, as the handling of requests sees it. -/
theorem parseOpt_toOpt (st st' : CommandLine × Bool) (opt : CliOpt)
    (h : CommandLine.parseOpt st opt = .ok st') :
    ProgOptions.parseOpt (st.1.options, st.2) opt.toOpt = .ok (st'.1.options, st'.2) := by
  have hnumber : ∀ optarg set, CommandLine.number st optarg set = .ok st' →
      (∀ n, (set n).options = st.1.options) → st'.1.options = st.1.options ∧ st'.2 = st.2 := by
    intro optarg set hset hsame
    rw [CommandLine.number] at hset
    split at hset
    · rename_i n _
      rw [← Except.ok.inj hset]
      exact ⟨hsame n, rfl⟩
    · exact absurd hset (by simp only [reduceCtorEq, not_false_eq_true])
  cases opt with
  | d optarg =>
      rw [CommandLine.parseOpt] at h
      cases hset : st.1.options.setDir optarg with
      | ok options =>
          simp only [hset, Except.ok.injEq] at h
          simp only [CliOpt.toOpt, ProgOptions.parseOpt, hset, ← h]
      | error e => exact absurd h (by simp only [hset, reduceCtorEq, not_false_eq_true])
  | p optarg | t optarg | T optarg =>
      rcases hnumber optarg _ h (fun _ => rfl) with ⟨hoptions, hknown⟩
      change Except.ok (st.1.options, st.2) = Except.ok (st'.1.options, st'.2)
      rw [hoptions, hknown]
  | V | v | l optarg | D optarg | n optarg | unknown =>
      rw [← Except.ok.inj h]
      rfl
  | h => exact absurd h (by simp only [CommandLine.parseOpt, reduceCtorEq, not_false_eq_true])

theorem parse_toOpt (opts : List CliOpt) (commandLine : CommandLine) (known : Bool)
    (h : CommandLine.parse opts = .ok (commandLine, known)) :
    ProgOptions.parse (opts.map CliOpt.toOpt) = .ok (commandLine.options, known) := by
  have hfold : ∀ (opts : List CliOpt) (st st' : CommandLine × Bool),
      opts.foldlM CommandLine.parseOpt st = .ok st' →
      (opts.map CliOpt.toOpt).foldlM ProgOptions.parseOpt (st.1.options, st.2)
        = .ok (st'.1.options, st'.2) := by
    intro opts
    induction opts with
    | nil =>
        intro st st' hfold
        rw [← Except.ok.inj hfold]
        rfl
    | cons opt opts ih =>
        intro st st' hfold
        rw [List.foldlM_cons] at hfold
        cases hone : CommandLine.parseOpt st opt with
        | error e =>
            rw [hone] at hfold
            exact absurd hfold (by simp only [bind, Except.bind, reduceCtorEq, not_false_eq_true])
        | ok st₁ =>
            rw [hone] at hfold
            rw [List.map_cons, List.foldlM_cons, parseOpt_toOpt st st₁ opt hone]
            exact ih st₁ st' hfold
  rw [CommandLine.parse] at h
  split at h
  · rename_i commandLine' unknown hopts
    rw [Except.ok.injEq, Prod.mk.injEq] at h
    rw [ProgOptions.parse, show (({} : ProgOptions), false)
      = (({} : CommandLine).options, false) from rfl, hfold opts ({}, false) _ hopts]
    simp only [h.1, h.2]
  · exact absurd h (by simp only [reduceCtorEq, not_false_eq_true])

/-- What a server that is up handles requests with is what `startup` gives for its
    options. -/
theorem startup_of_serverMain {sq : Sqlite} (fs : FileSystem) (binds : Nat → Bool)
    (loguru : Bytes → Option Stop) (cwd : Location) (w : sq.World) (opts : List CliOpt)
    (argv0 : Bytes) (l : Launched sq)
    (h : serverMain fs binds loguru cwd w opts argv0 = .ok l) :
    startup fs cwd (opts.map CliOpt.toOpt) argv0 = .ok (some l.serving.env) := by
  rcases serverMain_spec fs binds loguru cwd w opts argv0 l h with
    ⟨commandLine, env, _, _, _, hparse, _, _, _, henv, hloop⟩
  rw [(serverLoop_spec binds l commandLine _ hloop).1, startup]
  simp only [parse_toOpt opts commandLine true hparse]
  rw [changeDir] at henv
  by_cases hdir : commandLine.options.dir ≠ ['.']
  · rw [if_pos hdir] at henv ⊢
    cases hresolve : fs.resolve cwd commandLine.options.dir with
    | error e => exact absurd henv (by simp only [hresolve, reduceCtorEq, not_false_eq_true])
    | ok loc =>
        simp only [hresolve] at henv ⊢
        cases hnode : fs.node loc with
        | none => exact absurd henv (by simp only [hnode, reduceCtorEq, not_false_eq_true])
        | some node =>
            cases node with
            | dir readable size names =>
                simp only [hnode] at henv ⊢
                rw [← Option.some.inj henv]
            | file | other =>
                exact absurd henv (by simp only [hnode, reduceCtorEq, not_false_eq_true])
  · rw [if_neg hdir] at henv ⊢
    rw [← Option.some.inj henv]

end HttpFileSharing
