/-
MonitoredCompile/Proofs/FileSystem/BlindMove.lean

Making directories, copying, removing and moving trees are blind to a lone file, too.  Each is
made of calls, so each part is `Blind` in the state that the parts before it leave.  The paths
in a copied tree are those of the names that its directories are listed with, and the name of
the file may be among them: there it is enough that the directories are other ones, which is
what `Steady` keeps track of.
-/
import MonitoredCompile.Proofs.FileSystem.Blind
import MonitoredCompile.Proofs.Parallel

namespace MonitoredCompile

open Attempt (exec exec_bind exec_get exec_tryCatch exec_pure exec_throw)

theorem Path.not_mem_names_parent {x path : String} (h : x ∉ names path) :
    x ∉ names (splitParent path).1 := by
  have hsplit {p : String} (hp : x ∉ names p) : x ∉ names (split p).1 := by
    rw [names_split] at hp
    exact fun hmem => hp (List.mem_append_left _ hmem)
  rw [splitParent]
  split
  · exact hsplit (hsplit h)
  · exact hsplit h

/-! ### Other directories -/

namespace FileSystem

variable {fs after : FileSystem} {d e l : Location} {x path dir name : String}

/-- The path leads to this directory also if the location is hidden. -/
structure Steady (fs : FileSystem) (e : Location) (path : String) (l : Location) : Prop where
  here : fs.DirAt path l
  hidden : (fs.without e).DirAt path l

theorem Grows.without (h : Grows fs after) (hdir : fs.entryAt d = some .dir) :
    Grows (fs.without (d ++ [x])) (after.without (d ++ [x])) := by
  refine ⟨fun m entry hm => ?_, h.cwd⟩
  have hoff : ¬ d ++ [x] <+: m := by
    intro hp
    rw [show (fs.without (d ++ [x])).entryAt m = none from
      Option.map_eq_none_iff.mpr (get?_without_below hdir hp)] at hm
    cases hm
  rw [entryAt_without hoff] at hm ⊢
  exact h.extends_ m entry hm

theorem Misses.steady (hmiss : fs.Misses (d ++ [x]) path true) (h : fs.Lone d x)
    (hdir : fs.DirAt path l) : fs.Steady (d ++ [x]) path l := by
  refine ⟨hdir, ?_⟩
  obtain ⟨there, hfind⟩ := hdir
  rcases hmiss.find_cases h with
    ⟨r, hf, -⟩ | ⟨m, node, hf, -, -, hnode⟩ | ⟨m, entries, entries', hf, hf', -⟩
  · cases hfind.symm.trans hf
  · cases hfind.symm.trans hf
    exact absurd rfl hnode
  · cases hfind.symm.trans hf
    exact ⟨entries', hf'⟩

namespace Steady

variable (hdir : fs.Steady (d ++ [x]) dir l) (h : fs.Lone d x)
include hdir h

theorem grows (hgrows : Grows fs after) : after.Steady (d ++ [x]) dir l :=
  ⟨hdir.here.grows hgrows, hdir.hidden.grows (hgrows.without h.dir)⟩

/-- It has the same entries, if the file is not below it. -/
theorem listDir (habove : ¬ l <+: d) :
    (fs.without (d ++ [x])).listDir dir = fs.listDir dir := by
  obtain ⟨entries, hfind⟩ := hdir.here
  obtain ⟨entries', hfind'⟩ := hdir.hidden
  have hget := (find_eq_ok_iff.mp hfind).2
  have hget' := (find_eq_ok_iff.mp hfind').2
  rw [get?_without (Lone.apart_of_not_above habove
    (h.not_prefix_dir (entryAt_eq_dir.mpr ⟨entries, hget⟩)))] at hget'
  cases hget.symm.trans hget'
  rw [FileSystem.listDir, FileSystem.listDir, hfind, hfind']

variable (hname : IsName name) (hne : l ++ [name] ≠ d ++ [x])
include hname hne

theorem misses {follow : Bool} (hlink : follow = true → fs.isLink (Path.join dir name) = false) :
    fs.Misses (d ++ [x]) (Path.join dir name) follow :=
  h.misses_join hname hdir.here hdir.hidden hne hlink

/-- So is a directory in it. -/
theorem join (hlink : fs.isLink (Path.join dir name) = false)
    (hisDir : fs.isDir (Path.join dir name) = true) :
    fs.Steady (d ++ [x]) (Path.join dir name) (l ++ [name]) := by
  refine (hdir.misses h hname hne fun _ => hlink).steady h ?_
  obtain ⟨m, entries, hfind⟩ := isDir_iff.mp hisDir
  obtain rfl := location_join hname hdir.here (fun _ => hlink) hfind
  exact ⟨entries, hfind⟩

end Steady

end FileSystem

namespace FileOp

open FileSystem (BlindCall Misses Aside Steady Grows SameOutside AddsDirs)

variable {α β : Type} {fs after : FileSystem} {d l : Location} {x path src dst : String}

/-- It is the same whether the file is hidden before the operation or after it, and the
operation leaves the file lone. -/
structure Blind (d : Location) (x : String) (fs : FileSystem) (op : FileOp α) : Prop where
  hidden : exec op (fs.without (d ++ [x])) = ((exec op fs).1, (exec op fs).2.without (d ++ [x]))
  lone : (exec op fs).2.Lone d x

/-! ### Parts -/

namespace Blind

/-- The one file system is the other with the lone file hidden. -/
def Hides (d : Location) (x : String) (fs fs' : FileSystem) : Prop :=
  fs' = fs.without (d ++ [x]) ∧ fs.Lone d x

theorem iff_parallel {op : FileOp α} :
    Blind d x fs op ↔ Attempt.Parallel (Hides d x) op fs (fs.without (d ++ [x])) :=
  ⟨fun h => ⟨by rw [h.hidden], by rw [h.hidden]; exact ⟨rfl, h.lone⟩⟩,
    fun h => ⟨Prod.ext h.result.symm h.states.1, h.states.2⟩⟩

theorem of_exec {op : FileOp α} {r : Except FileFault α} (hop : exec op fs = (r, after))
    (hop' : exec op (fs.without (d ++ [x])) = (r, after.without (d ++ [x])))
    (hlone : after.Lone d x) : Blind d x fs op :=
  iff_parallel.mpr (.of_exec hop hop' ⟨rfl, hlone⟩)

theorem pure (h : fs.Lone d x) (a : α) : Blind d x fs (pure a) := .of_exec rfl rfl h

theorem throw (h : fs.Lone d x) (fault : FileFault) : Blind d x fs (throw fault : FileOp α) :=
  .of_exec rfl rfl h

theorem bind {m : FileOp α} {f : α → FileOp β} (hm : Blind d x fs m)
    (hf : ∀ a after, exec m fs = (.ok a, after) → after.Lone d x → Blind d x after (f a)) :
    Blind d x fs (m >>= f) := by
  refine iff_parallel.mpr ((iff_parallel.mp hm).bind fun a after after' hexec _ hhides => ?_)
  obtain ⟨rfl, hlone⟩ := hhides
  exact iff_parallel.mp (hf a after hexec hlone)

theorem tryCatch {m : FileOp α} {handler : FileFault → FileOp α} (hm : Blind d x fs m)
    (hh : ∀ fault after, exec m fs = (.error fault, after) → after.Lone d x →
      Blind d x after (handler fault)) :
    Blind d x fs (tryCatch m handler) := by
  refine iff_parallel.mpr ((iff_parallel.mp hm).tryCatch fun fault after after' hexec _ hhides => ?_)
  obtain ⟨rfl, hlone⟩ := hhides
  exact iff_parallel.mp (hh fault after hexec hlone)

/-- An operation that depends on what it sees first. -/
theorem get_bind {f : FileSystem → FileOp α} (hf : Blind d x fs (f fs))
    (hsame : exec (f (fs.without (d ++ [x]))) (fs.without (d ++ [x]))
      = exec (f fs) (fs.without (d ++ [x]))) : Blind d x fs (get >>= f) :=
  iff_parallel.mpr ((iff_parallel.mp hf).get_bind hsame)

theorem call {f : FileSystem → Except Refusal FileSystem} (h : fs.Lone d x)
    (hf : BlindCall d x fs f) : Blind d x fs (call path f) := by
  have hidden := hf.hidden
  cases hcall : f fs with
  | error r =>
    rw [hcall] at hidden
    exact .of_exec (by rw [exec_call, hcall]) (by rw [exec_call, hidden]; rfl) h
  | ok after =>
    rw [hcall] at hidden
    exact .of_exec (by rw [exec_call, hcall]) (by rw [exec_call, hidden]; rfl) (hf.lone hcall)

theorem ask {f : FileSystem → Except Refusal α} (h : fs.Lone d x)
    (hf : f (fs.without (d ++ [x])) = f fs) : Blind d x fs (ask path f) := by
  cases hask : f fs with
  | error r =>
    rw [hask] at hf
    exact .of_exec (by rw [exec_ask, hask]) (by rw [exec_ask, hf]) h
  | ok a =>
    rw [hask] at hf
    exact .of_exec (by rw [exec_ask, hask]) (by rw [exec_ask, hf]) h

end Blind

/-! ### Directories with their parents -/

theorem blind_makeLeaf (h : fs.Lone d x) (mayExist : Bool)
    (hmiss : fs.Misses (d ++ [x]) path false)
    (hmiss' : mayExist = true → fs.Misses (d ++ [x]) path true) :
    Blind d x fs (makeLeaf mayExist path) := by
  have hmake := hmiss.makeDir h
  have hidden := hmake.hidden
  cases hdir : fs.makeDir path with
  | ok after =>
    rw [hdir] at hidden
    exact .of_exec (by rw [exec_makeLeaf, hdir]) (by rw [exec_makeLeaf, hidden]; rfl)
      (hmake.lone hdir)
  | error r =>
    rw [hdir] at hidden
    have hsame : (mayExist && (faultAt path r).fromSystem && (fs.without (d ++ [x])).isDir path)
        = (mayExist && (faultAt path r).fromSystem && fs.isDir path) := by
      cases mayExist with
      | false => rfl
      | true => rw [(hmiss' rfl).isDir h]
    by_cases hthere : (mayExist && (faultAt path r).fromSystem && fs.isDir path) = true
    · exact .of_exec (by rw [exec_makeLeaf, hdir]; exact if_pos hthere)
        (by rw [exec_makeLeaf, hidden]; exact if_pos (hsame.trans hthere)) h
    · exact .of_exec (by rw [exec_makeLeaf, hdir]; exact if_neg hthere)
        (by rw [exec_makeLeaf, hidden]; exact if_neg (hsame ▸ hthere)) h

theorem blind_makeDirsWithin (h : fs.Lone d x) (mayExist : Bool) (depth : Nat)
    (hx : x ∉ Path.names path) : Blind d x fs (makeDirsWithin mayExist depth path) := by
  have hleaf {fs : FileSystem} (h : fs.Lone d x) {path : String} (hx : x ∉ Path.names path) :
      Blind d x fs (makeLeaf mayExist path) :=
    blind_makeLeaf h mayExist (h.misses hx false) fun _ => h.misses hx true
  induction depth generalizing fs path with
  | zero => exact hleaf h hx
  | succ depth ih =>
    have hparent := Path.not_mem_names_parent hx
    have hexists := (h.misses hparent true).pathExists h
    rcases hsplit : Path.splitParent path with ⟨parent, name⟩
    rw [hsplit] at hparent hexists
    rw [makeDirsWithin, hsplit]
    refine Blind.get_bind ?_ (by simp only [hexists])
    split
    · exact hleaf h hx
    · refine (Blind.tryCatch (ih h hparent) fun fault after _ hafter => ?_).bind
        fun _ after _ hafter => ?_
      · split
        · exact .pure hafter ()
        · exact .throw hafter _
      · split
        · exact .pure hafter ()
        · exact hleaf hafter hx

theorem blind_ensureDirs (h : fs.Lone d x) (hx : x ∉ Path.names path) :
    Blind d x fs (ensureDirs path) :=
  blind_makeDirsWithin h true path.length hx

theorem blind_makeNewDirs (h : fs.Lone d x) (hx : x ∉ Path.names path) :
    Blind d x fs (makeNewDirs path) :=
  blind_makeDirsWithin h false path.length hx

/-! ### Removing -/

theorem blind_removeTree (h : fs.Lone d x) (hx : x ∉ Path.names path)
    (haside : fs.Aside d path) : Blind d x fs (removeTree path) := by
  have hrefused {r : FileFault} (hop : exec (removeTree path) fs = (.error r, fs))
      (hop' : exec (removeTree path) (fs.without (d ++ [x]))
        = (.error r, fs.without (d ++ [x]))) : Blind d x fs (removeTree path) :=
    .of_exec hop hop' h
  rcases (h.misses hx false).find_cases h with
    ⟨r, hf, hf'⟩ | ⟨l, node, hf, hf', -, hnode⟩ | ⟨l, entries, entries', hf, hf', hsame⟩
  · exact hrefused (by rw [exec_removeTree, hf]) (by rw [exec_removeTree, hf'])
  · cases node with
    | dir entries => exact absurd rfl hnode
    | file f | link target | device =>
      exact hrefused (by rw [exec_removeTree, hf]) (by rw [exec_removeTree, hf'])
  · have habove := haside l entries hf
    obtain ⟨hapart, rfl⟩ := hsame habove
    have hcleared := h.clear hapart
    -- If the path names a directory after that, then it is still this one.
    have hstill : (fs.clear l).Aside d path := by
      intro m there hfind
      obtain ⟨node, hfind', -⟩ := (FileSystem.extends_clear (FileSystem.find_eq_ok_iff.mp hf).2).find
        (FileSystem.sameStarts_clear fs l path) hfind
      rw [hf] at hfind'
      cases hfind'
      exact habove
    have hremove : Blind d x _ (call path (·.removeDir path)) :=
      .call hcleared ((hcleared.misses hx false).removeDir hcleared hstill)
    refine ⟨?_, ?_⟩
    · rw [exec_removeTree, exec_removeTree, hf, hf']
      dsimp only
      rw [← FileSystem.without_clear hapart]
      exact hremove.hidden
    · rw [exec_removeTree, hf]
      exact hremove.lone

/-! ### Copying single entries -/

theorem exec_makeLink (text path : String) (fs : FileSystem) : exec (makeLink text path) fs =
    match fs.makeLink path text with
    | .ok after => (.ok (), after)
    | .error .nul => (.error .nul, fs)
    | .error (.system e) => (.error (.linkRefused e text path), fs) := by
  rw [makeLink, exec_bind, exec_get]
  dsimp only
  cases fs.makeLink path text with
  | ok after => rfl
  | error r => cases r <;> rfl

theorem blind_makeLink (h : fs.Lone d x) (hmiss : fs.Misses (d ++ [x]) path false) {text : String}
    (htext : x ∉ Path.names text) : Blind d x fs (makeLink text path) := by
  have hmake := hmiss.makeLink h htext
  have hidden := hmake.hidden
  cases hlink : fs.makeLink path text with
  | ok after =>
    rw [hlink] at hidden
    exact .of_exec (by rw [exec_makeLink, hlink]) (by rw [exec_makeLink, hidden]; rfl) (hmake.lone hlink)
  | error r =>
    rw [hlink] at hidden
    cases r with
    | nul => exact .of_exec (by rw [exec_makeLink, hlink]) (by rw [exec_makeLink, hidden]; rfl) h
    | system e => exact .of_exec (by rw [exec_makeLink, hlink]) (by rw [exec_makeLink, hidden]; rfl) h

/-- The path misses the file before something is stored there and after that. -/
structure Writable (fs : FileSystem) (e : Location) (path : String) : Prop where
  now : fs.Misses e path true
  stored : ∀ bytes after, fs.store path bytes = .ok after → after.Misses e path true

theorem blind_copyFile (h : fs.Lone d x) (hsrc : fs.Misses (d ++ [x]) src true)
    (hdst : Writable fs (d ++ [x]) dst) : Blind d x fs (copyFile src dst) := by
  have hstore (bytes : Bytes) : Blind d x fs (call dst fun fs => fs.store dst bytes) :=
    .call h (hdst.now.store h bytes)
  rcases hsrc.find_cases h with
    ⟨r, hf, hf'⟩ | ⟨l, node, hf, hf', -⟩ | ⟨l, entries, entries', hf, hf', -⟩
  · refine .of_exec (r := .error (faultAt src r)) ?_ ?_ h
    · rw [copyFile, exec_bind, exec_ask, hf]
    · rw [copyFile, exec_bind, exec_ask, hf']
  · refine Blind.bind (.ask h (hf'.trans hf.symm)) fun found after hask hafter => ?_
    rw [exec_ask, hf] at hask
    cases hask
    cases node with
    | dir entries => exact .throw h _
    | link target | device => exact hstore []
    | file f =>
      refine Blind.bind (hstore f.bytes) fun _ stored hstored hlone => ?_
      rw [exec_call] at hstored
      have hmiss : stored.Misses (d ++ [x]) dst true := by
        cases hs : fs.store dst f.bytes with
        | error r =>
          rw [hs] at hstored
          cases hstored
        | ok stored' =>
          rw [hs] at hstored
          cases hstored
          exact hdst.stored _ _ hs
      refine .call hlone ?_
      rcases hmiss.find_cases hlone with
        ⟨r, hf, hf'⟩ | ⟨l, node, hf, hf', hapart, -⟩ | ⟨l, entries, entries', hf, hf', -⟩
      · exact .done (by rw [hf]) (by rw [hf']) hlone
      · cases node with
        | file old =>
          refine .done (by rw [hf]) ?_ (hlone.place hapart (FileSystem.shuns_file f))
          rw [hf', FileSystem.without_place hapart]
        | dir _ | link _ | device => exact .done (by rw [hf]) (by rw [hf']) hlone
      · exact .done (by rw [hf]) (by rw [hf']) hlone
  · refine .of_exec (r := .error (.refused .isDirectory src)) ?_ ?_ h
    · rw [copyFile, exec_bind, exec_ask, hf]
      rfl
    · rw [copyFile, exec_bind, exec_ask, hf']
      rfl

/-- The target of a link that is copied has not the name of the file. -/
theorem not_mem_of_readLink (h : fs.Lone d x) {text : String} (hread : fs.readLink src = .ok text) :
    x ∉ Path.names text := by
  obtain ⟨l, hfind⟩ := find_of_readLink hread
  exact h.links l text (FileSystem.entryAt_of_get? (FileSystem.find_eq_ok_iff.mp hfind).2)

theorem blind_readLink {f : String → FileOp α} (h : fs.Lone d x)
    (hmiss : fs.Misses (d ++ [x]) src false)
    (hf : ∀ text, x ∉ Path.names text → Blind d x fs (f text)) :
    Blind d x fs (ask src (fun fs => fs.readLink src) >>= f) := by
  refine Blind.bind (.ask h (hmiss.readLink h)) fun text after hask _ => ?_
  rw [exec_ask] at hask
  cases hread : fs.readLink src with
  | error r =>
    rw [hread] at hask
    cases hask
  | ok text' =>
    rw [hread] at hask
    cases hask
    exact hf text (not_mem_of_readLink h hread)

theorem blind_copyEntry {copy : String → String → FileOp Unit} (h : fs.Lone d x)
    (hlink : fs.Misses (d ++ [x]) src false)
    (hsrc : fs.isLink src = false → fs.Misses (d ++ [x]) src true)
    (hfree : fs.Misses (d ++ [x]) dst false) (hdst : Writable fs (d ++ [x]) dst)
    (hcopy : fs.isLink src = false → fs.isDir src = true → Blind d x fs (copy src dst)) :
    Blind d x fs (copyEntry copy true src dst) := by
  have hsame := hlink.isLink h
  cases hcase : fs.isLink src with
  | true =>
    refine Blind.get_bind ?_ (by simp only [hsame, hcase, Bool.and_self, if_true])
    simp only [hcase, Bool.and_self, if_true]
    exact blind_readLink h hlink fun text htext => blind_makeLink h hfree htext
  | false =>
    have hdir := (hsrc hcase).isDir h
    refine Blind.get_bind ?_ (by simp only [hsame, hdir, hcase])
    simp only [hcase, Bool.and_false, Bool.false_eq_true, if_false]
    split
    · next hisDir => exact hcopy hcase hisDir
    · exact blind_copyFile h (hsrc hcase) hdst

/-! ### Copying trees -/

/-- A copy to a free name in a directory is blind, if the file is neither below its source nor
in the directory. -/
def BlindCopy (d : Location) (x : String) (copy : String → String → FileOp Unit) : Prop :=
  ∀ ⦃fs : FileSystem⦄ ⦃src dir name : String⦄ ⦃top l : Location⦄, fs.Lone d x → fs.WellFormed →
    fs.Steady (d ++ [x]) src top → ¬ top <+: d → fs.Steady (d ++ [x]) dir l → l ≠ d →
    IsName name → fs.entryAt (l ++ [name]) = none →
    Blind d x fs (copy src (Path.join dir name))

section

variable {copy : String → String → FileOp Unit} {dir name : String} {top : Location}

/-- A name in a directory that the file is not below is not the file's. -/
theorem ne_of_not_above (htop : ¬ top <+: d) : top ++ [name] ≠ d ++ [x] := by
  intro heq
  obtain ⟨rfl, -⟩ := List.append_inj' heq rfl
  exact htop List.prefix_rfl

theorem ne_of_ne (hl : l ≠ d) : l ++ [name] ≠ d ++ [x] :=
  fun heq => hl (List.append_inj' heq rfl).1

theorem writable_join (h : fs.Lone d x) (hdir : fs.Steady (d ++ [x]) dir l) (hl : l ≠ d)
    (hname : IsName name) (hentry : fs.entryAt (l ++ [name]) = none) :
    Writable fs (d ++ [x]) (Path.join dir name) := by
  have hfree := FileSystem.free_join hdir.here hname hentry
  have hnolink := FileSystem.isLink_join hname hdir.here fun target htarget => by
    cases hentry.symm.trans htarget
  have hnow : fs.Misses (d ++ [x]) (Path.join dir name) true :=
    hdir.misses h hname (ne_of_ne hl) fun _ => hnolink
  refine ⟨hnow, fun bytes stored hs => ?_⟩
  obtain ⟨hout, f, hfind⟩ := hfree.store hs
  -- A file stands there now, and the directory is where it was.
  have hthere := hdir.grows h (hout.grows hentry)
  have hfile := FileSystem.isLink_join hname hthere.here fun target htarget => by
    cases htarget.symm.trans (FileSystem.entryAt_of_get? (FileSystem.find_eq_ok_iff.mp hfind).2)
  exact hthere.misses ((hnow.store h bytes).lone hs) hname (ne_of_ne hl) fun _ => hfile

theorem blind_copyEntry_join (hcopy : BlindCopy d x copy) (h : fs.Lone d x) (hwf : fs.WellFormed)
    (hsrc : fs.Steady (d ++ [x]) src top) (htop : ¬ top <+: d) (hdir : fs.Steady (d ++ [x]) dir l)
    (hl : l ≠ d) (hname : IsName name) (hentry : fs.entryAt (l ++ [name]) = none) :
    Blind d x fs (copyEntry copy true (Path.join src name) (Path.join dir name)) := by
  have hne : top ++ [name] ≠ d ++ [x] := ne_of_not_above htop
  refine blind_copyEntry h (hsrc.misses h hname hne nofun)
    (fun hlink => hsrc.misses h hname hne fun _ => hlink) (hdir.misses h hname (ne_of_ne hl) nofun)
    (writable_join h hdir hl hname hentry) fun hlink hisDir => ?_
  refine hcopy h hwf (hsrc.join h hname hne hlink hisDir) (fun hp => htop ?_) hdir hl hname hentry
  exact (List.prefix_append top [name]).trans hp

/-- Whether an entry could be copied or is only named as missed, it left one state. -/
theorem exec_tryEntry {entry : FileOp Unit} {missed : List (String × String × String)}
    {parts : FileFault → List (String × String × String)}
    (h : exec (tryCatch (do entry; pure []) fun fault =>
      if fault.fromSystem then pure (parts fault) else throw fault) fs = (.ok missed, after)) :
    (exec entry fs).2 = after := by
  rw [exec_tryCatch, exec_bind] at h
  rcases hentry : exec entry fs with ⟨fault | ⟨⟩, mid⟩ <;> rw [hentry] at h
  · dsimp only at h
    split at h <;> cases h
    rfl
  · cases h
    rfl

/-- The names are taken one after the other, as in `copyEntries_confined`. -/
theorem blind_copyEntries (hcopy : BlindCopy d x copy) (hconfined : Confined copy)
    (hsound : ∀ src dst, Sound (copy src dst)) {names : List String} (h : fs.Lone d x)
    (hwf : fs.WellFormed) (hsrc : fs.Steady (d ++ [x]) src top) (htop : ¬ top <+: d)
    (hdir : fs.Steady (d ++ [x]) dir l) (hl : l ≠ d) (hnames : ∀ n ∈ names, IsName n)
    (hnodup : names.Nodup) (hentries : ∀ n ∈ names, fs.entryAt (l ++ [n]) = none) :
    Blind d x fs (copyEntries copy true src dir names) := by
  induction names generalizing fs with
  | nil => exact .pure h []
  | cons name rest ih =>
    obtain ⟨hname, hrest⟩ := List.forall_mem_cons.mp hnames
    obtain ⟨hentry, hmore⟩ := List.forall_mem_cons.mp hentries
    obtain ⟨hnew, hnodup⟩ := List.nodup_cons.mp hnodup
    have hblind := blind_copyEntry_join hcopy h hwf hsrc htop hdir hl hname hentry
    rw [copyEntries]
    refine Blind.bind (Blind.tryCatch (hblind.bind fun _ after _ hlone => .pure hlone [])
      fun fault after _ hlone => ?_) fun missed mid hmid hlone => ?_
    · split
      · exact .pure hlone _
      · exact .throw hlone _
    · have hstate := exec_tryEntry hmid
      have hout := copyEntry_sameOutside hconfined (Path.join src name) hwf hdir.here hname hentry
      have hwf' := (sound_copyEntry hsound true (Path.join src name) (Path.join dir name) fs).1 hwf
      rw [hstate] at hout hwf'
      have hgrows := hout.grows hentry
      exact (ih hlone hwf' (hsrc.grows h hgrows) (hdir.grows h hgrows) hrest hnodup
        (entries_left hout hnew hmore)).bind fun more after _ hafter => .pure hafter _

/-- The directory of the copy is there when the names are taken. -/
structure MadeNew (d : Location) (x dst : String) (l : Location) (fs mid : FileSystem) : Prop where
  grows : Grows fs mid
  wellFormed : mid.WellFormed
  steady : mid.Steady (d ++ [x]) dst l
  empty : mid.get? l = some (.dir [])
  other : l ≠ d

/-- A copy of a directory, once it is known where the new one is made. -/
theorem blind_copyTreeWithin_succ {depth : Nat} (hcopy : BlindCopy d x (copyTreeWithin true depth))
    (h : fs.Lone d x) (hwf : fs.WellFormed) (hsrc : fs.Steady (d ++ [x]) src top)
    (htop : ¬ top <+: d) (hmake : Blind d x fs (makeNewDirs dst))
    (hmade : ∀ mid, exec (makeNewDirs dst) fs = (.ok (), mid) → mid.Lone d x →
      ∃ l, MadeNew d x dst l fs mid) :
    Blind d x fs (copyTreeWithin true (depth + 1) src dst) := by
  rw [copyTreeWithin]
  refine Blind.bind (.ask h (hsrc.listDir h htop)) fun names after hask _ => ?_
  obtain ⟨rfl, hnames⟩ : after = fs ∧ fs.listDir src = .ok names := by
    rw [exec_ask] at hask
    cases hlist : fs.listDir src <;> rw [hlist] at hask <;> cases hask
    exact ⟨rfl, rfl⟩
  obtain ⟨hisName, hnodup⟩ := of_listDir hwf hnames
  refine Blind.bind hmake fun _ mid hmid hlone => ?_
  obtain ⟨l, hmade⟩ := hmade mid hmid hlone
  have hfree : ∀ n ∈ names, mid.entryAt (l ++ [n]) = none :=
    fun n _ => FileSystem.entryAt_below_emptyDir hmade.empty
  have hpass := blind_copyEntries hcopy (confined_copyTreeWithin depth)
    (sound_copyTreeWithin true depth) hlone hmade.wellFormed (hsrc.grows h hmade.grows) htop
    hmade.steady hmade.other hisName hnodup hfree
  refine Blind.bind hpass fun missed after hafter hlone' => ?_
  -- Then the directory is there, so the copy says that it is not absent.
  have hgrows : Grows mid after := by
    have := (copyEntries_confined (confined_copyTreeWithin depth) (sound_copyTreeWithin true depth)
      src hmade.wellFormed hmade.steady.here hisName hnodup hfree).2
    rwa [hafter] at this
  have hthere := hmade.steady.grows hlone hgrows
  obtain ⟨entries, hfind⟩ := hthere.here
  obtain ⟨entries', hfind'⟩ := hthere.hidden
  refine Blind.get_bind ?_ (by simp only [hfind, hfind'])
  simp only [hfind]
  split
  · exact .pure hlone' ()
  · exact .throw hlone' _

theorem blindCopy_copyTreeWithin (depth : Nat) : BlindCopy d x (copyTreeWithin true depth) := by
  induction depth with
  | zero => exact fun fs src dir name top l h hwf hsrc htop hdir hl hname hentry => .throw h _
  | succ depth ih =>
    intro fs src dir name top l h hwf hsrc htop hdir hl hname hentry
    have hne : l ++ [name] ≠ d ++ [x] := ne_of_ne hl
    have hmiss : fs.Misses (d ++ [x]) (Path.join dir name) false :=
      hdir.misses h hname hne fun hfollow => by cases hfollow
    have hleaf : Blind d x fs (makeLeaf false (Path.join dir name)) :=
      blind_makeLeaf h false hmiss fun hexist => by cases hexist
    -- Its parent is there, so only the directory itself has to be made.
    have hmake : Blind d x fs (makeNewDirs (Path.join dir name)) :=
      ⟨by rw [exec_makeNewDirs_join hdir.here hname, exec_makeNewDirs_join hdir.hidden hname]
          exact hleaf.hidden,
        by rw [exec_makeNewDirs_join hdir.here hname]; exact hleaf.lone⟩
    refine blind_copyTreeWithin_succ ih h hwf hsrc htop hmake fun mid hmid hlone => ?_
    rw [exec_makeNewDirs_join hdir.here hname] at hmid
    have hdirMade := makeLeaf_eq_ok hmid
    have hfree := FileSystem.free_join hdir.here hname hentry
    obtain ⟨hplace, hthere, hempty⟩ := hfree.makeDir hdirMade
    have hother : l ++ [name] ≠ d := by
      intro heq
      rw [heq] at hentry
      cases hentry.symm.trans h.dir
    have hgrows : Grows fs mid := by
      rw [hplace]
      exact (SameOutside.place fs (l ++ [name]) _).grows hentry
    have hlink := FileSystem.isLink_join hname (hdir.grows h hgrows).here fun target htarget => by
      cases htarget.symm.trans (FileSystem.entryAt_of_get? hempty)
    exact ⟨l ++ [name], hgrows, hwf.makeDir hdirMade,
      ((hdir.grows h hgrows).misses hlone hname hne fun _ => hlink).steady hlone hthere,
      hempty, hother⟩

/-- A tree is copied elsewhere under paths without the name of the file. -/
theorem blind_copyTree (h : fs.Lone d x) (hwf : fs.WellFormed) (hsrc : x ∉ Path.names src)
    (hdst : x ∉ Path.names dst) (hname : (Path.splitParent dst).2 ≠ ".")
    (htop : fs.DirAt src top) (habove : ¬ top <+: d) : Blind d x fs (copyTree true src dst) := by
  refine blind_copyTreeWithin_succ (blindCopy_copyTreeWithin (FileSystem.pathLimit - 1)) h hwf
    ((h.misses hsrc true).steady h htop) habove
    (blind_makeNewDirs h hdst) fun mid hmid hlone => ?_
  obtain ⟨parents, hadds, hwf', hmake⟩ := makeNewDirs_eq_ok hwf hname hmid
  obtain ⟨l, hfree⟩ := FileSystem.free_of_create hmake
  obtain ⟨hplace, hthere, hempty⟩ := hfree.makeDir hmake
  have hother : l ≠ d := by
    rintro rfl
    cases hfree.entry.symm.trans (hadds.extends_ _ _ h.dir)
  have hgrows : Grows parents mid := by
    rw [hplace]
    exact (SameOutside.place parents l _).grows hfree.entry
  exact ⟨l, FileSystem.frame_grows.trans hadds.toGrows hgrows, hwf'.makeDir hmake,
    (hlone.misses hdst true).steady hlone hthere, hempty, hother⟩

end

/-! ### Moving -/

theorem blind_absolute (h : fs.Lone d x) (path : String) : Blind d x fs (absolute path) := by
  rw [absolute]
  split
  · exact .pure h _
  · refine Blind.bind ?_ fun dir after _ hafter => .pure hafter _
    exact .of_exec (by rw [exec_currentDir, h.cwd])
      (by rw [exec_currentDir, show (fs.without (d ++ [x])).cwd = some d from h.cwd]) h

/-- Something that is no directory is replaced by its copy. -/
theorem blind_replace {op : FileOp Unit} (hop : Blind d x fs op) (hsrc : x ∉ Path.names src) :
    Blind d x fs (op >>= fun _ => call src fun fs => fs.removeFile src) :=
  hop.bind fun _ _ _ hafter => .call hafter ((hafter.misses hsrc false).removeFile hafter)

section

variable (h : fs.Lone d x) (hsrc : x ∉ Path.names src) (hdst : x ∉ Path.names dst)
include h hsrc hdst

theorem blind_moveByCopy (hwf : fs.WellFormed) (hname : (Path.splitParent dst).2 ≠ ".")
    (haside : fs.Aside d src) : Blind d x fs (moveByCopy src dst) := by
  have hsame := (h.misses hsrc false).isLink h
  have hsame' := (h.misses hsrc true).isDir h
  have hwritable : Writable fs (d ++ [x]) dst :=
    ⟨h.misses hdst true, fun bytes after hs =>
      (((h.misses hdst true).store h bytes).lone hs).misses hdst true⟩
  refine Blind.get_bind ?_ (by simp only [hsame, hsame'])
  split
  · exact blind_readLink h (h.misses hsrc false) fun text htext =>
      blind_replace (blind_makeLink h (h.misses hdst false) htext) hsrc
  · next hlink =>
    split
    · next hdir =>
      obtain ⟨top, entries, hfind⟩ := find_of_isDir (Bool.eq_false_iff.mpr hlink) hdir
      have habove := haside top entries hfind
      refine (blind_absolute h src).bind fun a after ha _ => ?_
      obtain rfl := exec_absolute ha
      refine (blind_absolute h dst).bind fun b after hb _ => ?_
      obtain rfl := exec_absolute hb
      have hcopy : Blind d x after (copyTree true src dst >>= fun _ => removeTree src) := by
        refine (blind_copyTree h hwf hsrc hdst hname
          ⟨entries, (FileSystem.find_dir_iff.mp hfind).2⟩ habove).bind fun _ copy hcopied hlone => ?_
        refine blind_removeTree hlone hsrc fun m there hthere => ?_
        -- The source is where it was before the copy.
        obtain ⟨node, hfind', -⟩ := (copyTree_creates hwf hname hcopied).1.find hfind
        cases hfind'.symm.trans hthere
        exact habove
      dsimp only
      split
      · exact .throw h _
      · exact hcopy
    · exact blind_replace (blind_copyFile h (h.misses hsrc true) hwritable) hsrc

/-- A move is blind, if the file is not below what is moved or replaced. -/
theorem blind_move (hwf : fs.WellFormed) (hname : (Path.splitParent dst).2 ≠ ".")
    (haside : fs.Aside d src) (haside' : fs.Aside d dst) : Blind d x fs (move src dst) := by
  have hrename := (h.misses hsrc false).rename h (h.misses hdst false) haside haside'
  have hidden := hrename.hidden
  cases hmove : fs.rename src dst with
  | ok after =>
    rw [hmove] at hidden
    exact .of_exec (by rw [exec_move, hmove]) (by rw [exec_move, hidden]; rfl) (hrename.lone hmove)
  | error r =>
    rw [hmove] at hidden
    cases r with
    | nul => exact .of_exec (by rw [exec_move, hmove]) (by rw [exec_move, hidden]; rfl) h
    | system e =>
      have hcopy := blind_moveByCopy h hsrc hdst hwf hname haside
      exact ⟨by rw [exec_move, exec_move, hmove, hidden]; exact hcopy.hidden,
        by rw [exec_move, hmove]; exact hcopy.lone⟩

end

end FileOp

end MonitoredCompile
