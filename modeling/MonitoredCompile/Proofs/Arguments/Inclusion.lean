/-
MonitoredCompile/Proofs/Arguments/Inclusion.lean

Argument files are transparent.  A command line with an argument file on it and the one
with the arguments of the file in its place are classified alike, or fail alike, for the
first argument file that cannot be used (`classify_included`).  Flags do not see where a
file begins or ends.

Reading an argument file changes nothing but the log, so what the tokens stand for can be
told from the files as they are at first (`Expands`, `FailsAt`).  The one exception is a
log that is written to an argument file while this is read.
-/
import MonitoredCompile.Proofs.Arguments.Grammar
import MonitoredCompile.Proofs.Arguments.Partition
import MonitoredCompile.Proofs.FileSystem.Overwrite
import MonitoredCompile.Proofs.Log.Loggers

namespace MonitoredCompile.Arguments

open Attempt (exec exec_bind Frame Keeps)
open Text (Layout Line)

/-! ### The log -/

/-- What is logged about argument files is appended to the file that the path leads to. -/
def LogsInto (h : Host) (path : String) : Prop :=
  h.log.enabled fileSite.logger .debug = true ∧
    ∃ handle l f, h.log.handler = some (.file handle) ∧
      h.files.opened[handle]?.bind OpenFile.location = some l ∧
      h.files.find path = .ok (l, .file f)

/-- Every file that the log does not go to reads as before. -/
def Undisturbed (h h' : Host) : Prop :=
  ∀ path, ¬ LogsInto h path → h'.files.read path = h.files.read path ∧ ¬ LogsInto h' path

theorem frame_undisturbed : Frame Undisturbed where
  refl _ _ hpath := ⟨rfl, hpath⟩
  trans hab hbc path hpath := by
    obtain ⟨hread, hnext⟩ := hab path hpath
    obtain ⟨hread', hlast⟩ := hbc path hnext
    exact ⟨hread'.trans hread, hlast⟩

/-- The log writes to no other file. -/
theorem undisturbed_overwrite {h : Host} {handle : Nat} {l : Location} {f : File}
    (hhandler : h.log.handler = some (.file handle))
    (henabled : h.log.enabled fileSite.logger .debug = true)
    (hgoes : h.files.opened[handle]?.bind OpenFile.location = some l)
    (hfile : h.files.get? l = some (.file f)) (g : File) :
    Undisturbed h { h with files := h.files.place l (.file g) } := by
  intro path hpath
  have hother : ∀ f, h.files.find path ≠ .ok (l, .file f) := fun f hfind =>
    hpath ⟨henabled, handle, l, f, hhandler, hgoes, hfind⟩
  refine ⟨FileSystem.read_overwrite hfile _ hother, ?_⟩
  rintro ⟨-, handle', l', f', hhandler', hgoes', hfind⟩
  obtain rfl : handle = handle' := by
    rw [hhandler] at hhandler'
    cases hhandler'
    rfl
  obtain rfl : l = l' := Option.some.inj (hgoes.symm.trans hgoes')
  -- What the path leads to now, it led to before.
  rw [(FileSystem.sameShape_overwrite hfile _).find_eq rfl] at hfind
  cases hbefore : h.files.find path with
  | error r =>
    rw [hbefore] at hfind
    cases hfind
  | ok found =>
    obtain ⟨m, node⟩ := found
    rw [hbefore] at hfind
    dsimp only at hfind
    split at hfind
    · cases hfind
    · cases hfind
      have hnode := (FileSystem.find_eq_ok_iff.mp hbefore).2
      rw [hfile] at hnode
      cases hnode
      exact hother f hbefore

theorem undisturbed_note (h : Host) (message : String) :
    Undisturbed h (h.note fileSite .debug message) := by
  refine h.note_cases fileSite .debug message ?_ (fun _ => ?_)
    (fun handle bytes hhandler henabled => ?_) fun _ => ?_
  · exact frame_undisturbed.refl h
  · exact fun _ hpath => ⟨rfl, hpath⟩
  · exact h.files.appendOpen_cases (P := fun files => Undisturbed h { h with files }) handle bytes
      (frame_undisturbed.refl h)
      fun _ _ hgoes hfile => undisturbed_overwrite hhandler henabled hgoes hfile _
  · exact fun _ hpath => ⟨rfl, hpath⟩

theorem keeps_ofFile (file : String) : Keeps Undisturbed (fun _ => True) (ofFile file) := by
  have hask : Keeps Undisturbed (fun _ => True)
      (Run.onFiles (FileOp.ask file fun fs => fs.read file)) := by
    intro h
    rw [Run.exec_onFiles, FileOp.exec_ask]
    cases h.files.read file <;> exact ⟨frame_undisturbed.refl h, fun _ _ => trivial⟩
  refine hask.bind frame_undisturbed fun bytes => ?_
  split
  · exact .throw frame_undisturbed trivial
  · next text =>
    refine Keeps.bind frame_undisturbed (.modify fun h => undisturbed_note h _) fun _ => ?_
    split
    · exact .throw frame_undisturbed trivial
    · exact .pure frame_undisturbed _

/-- What is made of an argument file depends on what is read from it. -/
theorem ofFile_congr {file : String} {h h' : Host}
    (hread : h'.files.read file = h.files.read file) :
    (exec (ofFile file) h').1 = (exec (ofFile file) h).1 := by
  cases hbytes : h.files.read file with
  | ok bytes => rw [ofFile_result hbytes, ofFile_result (hread.trans hbytes)]
  | error r =>
    have hfails {h : Host} (hrefused : h.files.read file = .error r) :
        (exec (ofFile file) h).1 = .error (.file (FileOp.faultAt file r)) := by
      rw [ofFile, exec_bind, Run.exec_onFiles, FileOp.exec_ask, hrefused]
    rw [hfails hbytes, hfails (hread.trans hbytes)]

/-! ### What tokens stand for -/

/-- What the tokens stand for, by the argument files as they are. -/
inductive Expands (h : Host) : List String → List String → Prop
  | nil : Expands h [] []
  | token {token rest more} : fileName? token = none → Expands h rest more →
      Expands h (token :: rest) (token :: more)
  | file {token file rest args more} : fileName? token = some file →
      (exec (ofFile file) h).1 = .ok args → Expands h rest more →
      Expands h (token :: rest) (args ++ more)

/-- The first argument file among the tokens that cannot be used fails like this. -/
def FailsAt (h : Host) (tokens : List String) (failure : Failure) : Prop :=
  ∃ before args token file after, tokens = before ++ token :: after ∧ Expands h before args ∧
    fileName? token = some file ∧ (exec (ofFile file) h).1 = .error failure

namespace Expands

variable {h : Host} {first others args more : List String}

theorem append (hfirst : Expands h first args) (hothers : Expands h others more) :
    Expands h (first ++ others) (args ++ more) := by
  induction hfirst with
  | nil => exact hothers
  | token hplain _ ih => exact .token hplain ih
  | file hname hargs _ ih =>
    rw [List.append_assoc]
    exact .file hname hargs ih

theorem of_plain {tokens : List String} (hplain : ∀ token ∈ tokens, fileName? token = none) :
    Expands h tokens tokens := by
  induction tokens with
  | nil => exact .nil
  | cons token rest ih =>
    obtain ⟨hfirst, hrest⟩ := List.forall_mem_cons.mp hplain
    exact .token hfirst (ih hrest)

theorem append_failsAt {failure : Failure} (hfirst : Expands h first args)
    (hothers : FailsAt h others failure) : FailsAt h (first ++ others) failure := by
  obtain ⟨before, more, token, file, after, rfl, hbefore, hfails⟩ := hothers
  exact ⟨first ++ before, args ++ more, token, file, after, by simp, hfirst.append hbefore, hfails⟩

end Expands

theorem FailsAt.append {h : Host} {tokens : List String} {failure : Failure}
    (hfails : FailsAt h tokens failure) (more : List String) : FailsAt h (tokens ++ more) failure := by
  obtain ⟨before, args, token, file, after, rfl, hfails⟩ := hfails
  exact ⟨before, args, token, file, after ++ more, by simp, hfails⟩

/-- Either all argument files can be used, or one is the first that cannot. -/
theorem expands_or_failsAt (h : Host) (tokens : List String) :
    (∃ args, Expands h tokens args) ∨ ∃ failure, FailsAt h tokens failure := by
  induction tokens with
  | nil => exact .inl ⟨[], .nil⟩
  | cons token rest ih =>
    have hhere : (∃ args, Expands h [token] args) ∨ ∃ failure, FailsAt h [token] failure := by
      cases hname : fileName? token with
      | none => exact .inl ⟨_, .token hname .nil⟩
      | some file =>
        cases hargs : (exec (ofFile file) h).1 with
        | ok args => exact .inl ⟨_, .file hname hargs .nil⟩
        | error failure => exact .inr ⟨failure, [], [], token, file, [], rfl, .nil, hname, hargs⟩
    rcases hhere with ⟨args, hargs⟩ | ⟨failure, hfails⟩
    · rcases ih with ⟨more, hmore⟩ | ⟨failure, hfails⟩
      · exact .inl ⟨args ++ more, hargs.append hmore⟩
      · exact .inr ⟨failure, hargs.append_failsAt hfails⟩
    · exact .inr ⟨failure, hfails.append rest⟩

/-! ### Expansion -/

/-- The log goes to none of the argument files among the tokens. -/
def Unlogged (h : Host) (tokens : List String) : Prop :=
  ∀ token ∈ tokens, ∀ file, fileName? token = some file → ¬ LogsInto h file

theorem Undisturbed.ofFile_result {h h' : Host} (hsame : Undisturbed h h') {file : String}
    (hfile : ¬ LogsInto h file) : (exec (ofFile file) h').1 = (exec (ofFile file) h).1 :=
  ofFile_congr (hsame file hfile).1

/-- A log that lets no line about argument files pass goes to none of them. -/
theorem unlogged_of_not_enabled {h : Host} (hoff : h.log.enabled fileSite.logger .debug = false)
    (tokens : List String) : Unlogged h tokens := by
  rintro token - file - ⟨henabled, -⟩
  rw [hoff] at henabled
  cases henabled

/-- The program never asks for the logger of the argument files, so in the program no
argument file is written to. -/
theorem unlogged_of_setUp {h h' : Host}
    (hfirst : h.log.Without ["topljavac.argfile", "topljavac"])
    (hsetup : exec (forIn Command.loggers PUnit.unit fun name _ => do
      Log.configure name
      pure (ForInStep.yield PUnit.unit)) h = (.ok ⟨⟩, h')) (tokens : List String) :
    Unlogged h' tokens := by
  have hothers : ∀ name ∈ Command.loggers,
      name ∉ ["topljavac.argfile", "topljavac"] ∧ Log.isRoot name = false := by decide
  refine unlogged_of_not_enabled ?_ tokens
  exact Log.Without.not_enabled (by decide) (by decide)
    ((Log.keeps_configureAll hothers).state hsetup hfirst)

theorem expand_token {token : String} (hname : fileName? token = none) (rest : List String)
    (h : Host) : (exec (expand (token :: rest)) h).1 = (exec (expand rest) h).1.map ([token] ++ ·) := by
  rw [expand, hname]
  dsimp only
  rw [exec_bind, Attempt.exec_pure]
  dsimp only
  rw [exec_bind]
  rcases exec (expand rest) h with ⟨failure | more, world⟩ <;> rfl

theorem expand_file {token file : String} (hname : fileName? token = some file)
    (rest : List String) (h : Host) :
    (exec (expand (token :: rest)) h).1 =
      match exec (ofFile file) h with
      | (.ok args, next) => (exec (expand rest) next).1.map (args ++ ·)
      | (.error failure, _) => .error failure := by
  rw [expand, hname]
  dsimp only
  rw [exec_bind]
  rcases exec (ofFile file) h with ⟨failure | args, next⟩
  · rfl
  · dsimp only
    rw [exec_bind]
    rcases exec (expand rest) next with ⟨failure | more, world⟩ <;> rfl

/-- What the first tokens stand for comes first, whatever comes after them. -/
theorem Expands.expand_append {h h' : Host} {tokens args : List String}
    (hexpands : Expands h tokens args) (hlog : Unlogged h tokens) (hsame : Undisturbed h h') :
    ∃ after, Undisturbed h after ∧ ∀ rest,
      (exec (expand (tokens ++ rest)) h').1 = (exec (expand rest) after).1.map (args ++ ·) := by
  induction hexpands generalizing h' with
  | nil =>
    refine ⟨h', hsame, fun rest => ?_⟩
    rw [List.nil_append]
    cases (exec (expand rest) h').1 <;> rfl
  | @token token tokens more hname _ ih =>
    obtain ⟨-, hrest⟩ := List.forall_mem_cons.mp hlog
    obtain ⟨after, hafter, hresult⟩ := ih hrest hsame
    refine ⟨after, hafter, fun rest => ?_⟩
    rw [List.cons_append, expand_token hname, hresult]
    cases (exec (expand rest) after).1 <;> rfl
  | @file token file tokens args more hname hargs _ ih =>
    obtain ⟨hfirst, hrest⟩ := List.forall_mem_cons.mp hlog
    obtain ⟨next, hread⟩ : ∃ next, exec (ofFile file) h' = (.ok args, next) :=
      ⟨_, Prod.ext ((hsame.ofFile_result (hfirst file hname)).trans hargs) rfl⟩
    have hnext := frame_undisturbed.trans hsame ((keeps_ofFile file).state hread)
    obtain ⟨after, hafter, hresult⟩ := ih hrest hnext
    refine ⟨after, hafter, fun rest => ?_⟩
    rw [List.cons_append, expand_file hname, hread]
    dsimp only
    rw [hresult]
    cases (exec (expand rest) after).1 with
    | error failure => rfl
    | ok found => exact congrArg Except.ok (List.append_assoc args more found).symm

theorem Expands.expand_result {h : Host} {tokens args : List String}
    (hexpands : Expands h tokens args) (hlog : Unlogged h tokens) :
    (exec (expand tokens) h).1 = .ok args := by
  obtain ⟨after, -, hresult⟩ := hexpands.expand_append hlog (frame_undisturbed.refl h)
  have hnil := hresult []
  rw [List.append_nil] at hnil
  rw [hnil]
  exact congrArg Except.ok (List.append_nil args)

theorem FailsAt.expand_result {h : Host} {tokens : List String} {failure : Failure}
    (hfails : FailsAt h tokens failure) (hlog : Unlogged h tokens) :
    (exec (expand tokens) h).1 = .error failure := by
  obtain ⟨before, args, token, file, after, rfl, hbefore, hname, hrefused⟩ := hfails
  obtain ⟨hfirst, hrest⟩ := List.forall_mem_append.mp hlog
  obtain ⟨world, hsame, hresult⟩ := hbefore.expand_append hfirst (frame_undisturbed.refl h)
  have hread := (hsame.ofFile_result (hrest token List.mem_cons_self file hname)).trans hrefused
  rw [hresult, expand_file hname]
  rcases hrun : exec (ofFile file) world with ⟨result, next⟩
  obtain rfl : result = .error failure := by
    rw [hrun] at hread
    exact hread
  rfl

/-! ### Classification -/

/-- Puts the arguments of argument files in their places, and classifies. -/
def classifyExpanded (tokens : List String) : Run Classified := do
  classifyLogged (← expand tokens)

theorem classifyExpanded_ok {tokens args : List String} {h : Host}
    (hexpand : (exec (expand tokens) h).1 = .ok args) :
    (exec (classifyExpanded tokens) h).1 = .ok (classify args) := by
  rw [classifyExpanded, exec_bind]
  rcases hrun : exec (expand tokens) h with ⟨result, next⟩
  obtain rfl : result = .ok args := by
    rw [hrun] at hexpand
    exact hexpand
  exact classifyLogged_result args next

theorem classifyExpanded_error {tokens : List String} {failure : Failure} {h : Host}
    (hexpand : (exec (expand tokens) h).1 = .error failure) :
    (exec (classifyExpanded tokens) h).1 = .error failure := by
  rw [classifyExpanded, exec_bind]
  rcases hrun : exec (expand tokens) h with ⟨result, next⟩
  obtain rfl : result = .error failure := by
    rw [hrun] at hexpand
    exact hexpand
  rfl

/-! ### Flags at the boundaries of a file -/

theorem ordinary_append (first others : List String) :
    ordinary (first ++ others) = ordinary first ++ ordinary others :=
  List.filter_append ..

/-- A `-d` left over from the first tokens takes the next one for its directory. -/
theorem ReadsAs.append_pair {first rest plain plain' dirs dirs' : List String} {alone : Bool}
    (hfirst : ReadsAs first plain dirs true) (dir : String) (hrest : ReadsAs rest plain' dirs' alone) :
    ReadsAs (first ++ dir :: rest) (plain ++ plain') (dirs ++ dir :: dirs') alone := by
  generalize hleft : true = left at hfirst
  induction hfirst with
  | nil => cases hleft
  | alone => exact .pair hrest
  | pair _ ih => exact .pair (ih hleft)
  | plain hne _ ih => exact .plain hne (ih hleft)

/-- The classified arguments are those of both lists, and a `-d` at the end of the first
list has its directory from the second. -/
def FlagReaches (first others : List String) (c : Classified) : Prop :=
  ∀ plain dirs dir rest plain' dirs' alone, ReadsAs (ordinary first) plain dirs true →
    ordinary others = dir :: rest → ReadsAs rest plain' dirs' alone →
    c.plainArgs = plain ++ plain' ∧ c.outputDir = (dirs ++ dir :: dirs').getLast?

theorem flagReaches (first others : List String) :
    FlagReaches first others (classify (first ++ others)) := by
  intro plain dirs dir rest plain' dirs' alone hfirst hothers hrest
  have hreads := hfirst.append_pair dir hrest
  rw [← hothers, ← ordinary_append] at hreads
  rw [classify_eq hreads]
  exact ⟨rfl, rfl⟩

/-! ### Inclusion -/

/-- The line spells the token: in one pair of quotes, or as it is if that is in none. -/
def Spells (line : Line) (token : String) : Prop :=
  (∃ q : Quote, line.chars = q.around token.toList) ∨
    (line.chars = token.toList ∧ ∀ (q : Quote) inner, line.chars ≠ q.around inner)

theorem unquote_of_spells {line : Line} {token : String} (h : Spells line token) :
    unquote line.string = token := by
  rw [unquote_eq_iff, Line.string, String.toList_ofList]
  rcases h with hquoted | ⟨hsame, hplain⟩
  · exact .inl hquoted
  · refine .inr ⟨?_, hplain⟩
    rw [hsame, String.ofList_toList]

theorem arguments_of_spells {layout : Layout} {tokens : List String}
    (h : List.Forall₂ Spells layout.lines tokens) : arguments layout = tokens := by
  rw [arguments]
  generalize layout.lines = lines at h
  induction h with
  | nil => rfl
  | cons hline _ ih => rw [List.map_cons, unquote_of_spells hline, ih]

theorem fileName?_at (file : String) : fileName? ("@" ++ file) = some file := by
  rw [fileName?, String.toList_append]
  exact congrArg some (String.ofList_toList)

/-- What comes of a command line with some arguments between these tokens. -/
inductive Comes (h : Host) (pre included post : List String) : Except Failure Classified → Prop
  | classified {before after} : Expands h pre before → Expands h post after →
      FlagReaches before (included ++ after) (classify (before ++ included ++ after)) →
      FlagReaches (before ++ included) after (classify (before ++ included ++ after)) →
      Comes h pre included post (.ok (classify (before ++ included ++ after)))
  | failed {failure} : FailsAt h (pre ++ post) failure →
      Comes h pre included post (.error failure)

/-- What comes of it does not depend on the tokens that stand for the arguments. -/
theorem comes_unique (h : Host) (pre included post : List String) :
    ∃ result, Comes h pre included post result ∧
      ∀ middle, Expands h middle included → Unlogged h (pre ++ middle ++ post) →
        (exec (classifyExpanded (pre ++ middle ++ post)) h).1 = result := by
  rcases expands_or_failsAt h pre with ⟨before, hbefore⟩ | ⟨failure, hfails⟩
  · rcases expands_or_failsAt h post with ⟨after, hafter⟩ | ⟨failure, hfails⟩
    · have hleft := flagReaches before (included ++ after)
      rw [← List.append_assoc] at hleft
      refine ⟨_, .classified hbefore hafter hleft (flagReaches (before ++ included) after), ?_⟩
      intro middle hmiddle hlog
      exact classifyExpanded_ok (((hbefore.append hmiddle).append hafter).expand_result hlog)
    · refine ⟨_, .failed (hbefore.append_failsAt hfails), fun middle hmiddle hlog => ?_⟩
      have hwhole := (hbefore.append hmiddle).append_failsAt hfails
      exact classifyExpanded_error (hwhole.expand_result hlog)
  · refine ⟨_, .failed (hfails.append post), fun middle _ hlog => ?_⟩
    have hwhole := (hfails.append middle).append post
    exact classifyExpanded_error (hwhole.expand_result hlog)

/-- **Argument files are transparent.**  With an argument file on it, a command line comes
to what it comes to with the arguments of the file in its place.  It is classified as all
that its tokens stand for, where a `-d` that comes last before the file has its directory
from the file, and one that comes last in the file from what follows; or it fails for the
first argument file that cannot be used, which is never this one. -/
theorem classify_included {pre post args : List String} {file : String} {layout : Layout} {h : Host}
    (hread : h.files.read file = .ok (Utf8.encode (String.ofList layout.text)))
    (hspells : List.Forall₂ Spells layout.lines args)
    (hplain : ∀ token ∈ args, fileName? token = none)
    (hlog : Unlogged h (pre ++ ["@" ++ file] ++ post)) :
    ∃ result, Comes h pre args post result ∧
      (exec (classifyExpanded (pre ++ ["@" ++ file] ++ post)) h).1 = result ∧
      (exec (classifyExpanded (pre ++ args ++ post)) h).1 = result := by
  obtain ⟨result, hcomes, hsame⟩ := comes_unique h pre args post
  refine ⟨result, hcomes, hsame _ ?_ hlog, hsame _ (.of_plain hplain) ?_⟩
  · have hargs : (exec (ofFile file) h).1 = .ok args := by
      rw [ofFile_result hread, Utf8.decode_eq_ok_iff.mpr rfl]
      dsimp only
      rw [String.toList_ofList, ofText_text, arguments_of_spells hspells]
    have hfile := Expands.file (fileName?_at file) hargs .nil
    rwa [List.append_nil] at hfile
  · intro token htoken name hname
    rcases List.mem_append.mp htoken with htoken | hpost
    · rcases List.mem_append.mp htoken with hpre | hargs
      · exact hlog token (by simp [hpre]) name hname
      · rw [hplain token hargs] at hname
        cases hname
    · exact hlog token (by simp [hpost]) name hname

/-- The value of a flag, a source and another flag, each line with another end. -/
def flagLayout : Layout :=
  .ended ⟨"'out dir'".toList, by decide, by decide⟩ .crlf
    (.ended ⟨"A.java".toList, by decide, by decide⟩ .cr
      (.unended ⟨"-d".toList, by decide, by decide⟩))

/-- A host with these in one argument file, and a specification in another. -/
def flagHost : Host where
  files := ⟨.dir [("flags", .file { bytes := Utf8.encode (String.ofList flagLayout.text) }),
    ("specs", .file { bytes := Utf8.encode "P.topl\n" })], some [], []⟩
  programs _ _ := .exit 0
  scratchDir := "/"

/-- Both flags have their values from beyond the boundaries of the file. -/
theorem classify_included_flagHost :
    ∃ result, Comes flagHost ["-d"] ["out dir", "A.java", "-d"] ["classes", "@specs"] result ∧
      (exec (classifyExpanded (["-d"] ++ ["@" ++ "flags"] ++ ["classes", "@specs"])) flagHost).1
        = result ∧
      (exec (classifyExpanded (["-d"] ++ ["out dir", "A.java", "-d"] ++ ["classes", "@specs"]))
        flagHost).1 = result ∧
      result.toOption = some ⟨["A.java"], [], ["P.topl"], some "classes"⟩ := by
  have hread : flagHost.files.read "flags" = .ok (Utf8.encode (String.ofList flagLayout.text)) := rfl
  have hspells : List.Forall₂ Spells flagLayout.lines ["out dir", "A.java", "-d"] := by
    refine .cons (.inl ⟨.single, by decide⟩) (.cons (.inr ⟨rfl, ?_⟩) (.cons (.inr ⟨rfl, ?_⟩) .nil))
    all_goals rintro (_ | _) inner <;> simp [Quote.around, Quote.char]
  have hlog : flagHost.log.enabled fileSite.logger .debug = false := by decide +kernel
  have hunlogged := unlogged_of_not_enabled hlog (["-d"] ++ ["@" ++ "flags"] ++ ["classes", "@specs"])
  obtain ⟨result, hcomes, hfile, hargs⟩ := classify_included hread hspells (by decide) hunlogged
  refine ⟨result, hcomes, hfile, hargs, ?_⟩
  rw [← hfile]
  decide +kernel

end MonitoredCompile.Arguments
