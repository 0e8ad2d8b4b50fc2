/-
MonitoredCompile/Proofs/FileSystem/HeedlessMove.lean

Making directories, copying, removing and moving trees do not heed what an open file holds,
either.  Each is run from two file systems that are `Rewritten`, and what a part asks is shown
for the file system that the parts before it leave of the first one.

Making directories asks nothing.  A copy reads what is below its source and nothing else, since
links are copied as links, so it is enough that the file is not there.  What it writes to is new,
as the names of a directory are copied once each, into a directory that was made for them.
-/
import MonitoredCompile.Proofs.FileSystem.BlindMove
import MonitoredCompile.Proofs.FileSystem.Heedless

namespace MonitoredCompile

open Attempt (exec exec_bind exec_get exec_throw exec_tryCatch Parallel)

namespace FileSystem

variable {fs fs' after : FileSystem} {handle : Nat} {o : Option Location} {l : Location}
variable {path : String}

/-- What is free is not the file. -/
theorem Rewritten.ne_of_free (h : Rewritten handle o fs fs') (hfree : fs.entryAt l = none) :
    ∀ e ∈ o, l ≠ e := by
  rintro e he rfl
  obtain ⟨-, hsame⟩ := h
  cases hsame with
  | device hnone => cases hnone.symm.trans he
  | file ho hfile _ =>
    cases ho.symm.trans he
    cases hfree.symm.trans (entryAt_of_get? hfile)

/-- As long as nothing is lost, a path that names something names the same thing. -/
theorem Spares.grows {node : Node} (h : fs.Spares o path)
    (hfind : fs.find path false = .ok (l, node)) (hgrows : Grows fs after) :
    after.Spares o path := by
  obtain ⟨node', hfind', -⟩ := hgrows.find hfind
  intro m found hthere
  cases hfind'.symm.trans hthere
  exact h l node hfind

/-- What is no link is where its path leads. -/
theorem Spares.avoids_of_isLink (h : fs.Spares o path) (hlink : fs.isLink path = false) :
    fs.Avoids o path := by
  intro e he node hfind
  obtain ⟨l, node', hfind'⟩ := find_unfollowed hfind
  have hnolink : ∀ target, node' ≠ .link target := by
    rintro target rfl
    rw [isLink, hfind'] at hlink
    cases hlink
  cases (find_follow hfind' hnolink).symm.trans hfind
  exact h.avoids e he node hfind'

end FileSystem

namespace FileOp

open FileSystem (Rewritten Grows SameOutside AddsDirs Counterpart)

variable {α β : Type} {fs fs' after : FileSystem} {handle : Nat} {o : Option Location}
variable {d l : Location} {path src dst : String}

section

variable (h : Rewritten handle o fs fs')
include h

theorem parallel_call {f : FileSystem → Except Refusal FileSystem}
    (hf : SameEnd (Rewritten handle o) (f fs) (f fs')) :
    Parallel (Rewritten handle o) (call path f) fs fs' := by
  have hexec := exec_call path f fs
  have hexec' := exec_call path f fs'
  generalize f fs = r at hf hexec
  generalize f fs' = r' at hf hexec'
  cases hf with
  | refused r => exact .of_exec hexec hexec' h
  | done hafter => exact .of_exec hexec hexec' hafter

theorem parallel_ask (path : String) {f : FileSystem → Except Refusal α} (hf : f fs' = f fs) :
    Parallel (Rewritten handle o) (ask path f) fs fs' := by
  have hexec := exec_ask path f fs
  have hexec' := exec_ask path f fs'
  rw [hf] at hexec'
  cases hask : f fs with
  | error r =>
    rw [hask] at hexec hexec'
    exact .of_exec hexec hexec' h
  | ok a =>
    rw [hask] at hexec hexec'
    exact .of_exec hexec hexec' h

/-! ### Directories with their parents -/

theorem parallel_makeLeaf (mayExist : Bool) (path : String) :
    Parallel (Rewritten handle o) (makeLeaf mayExist path) fs fs' := by
  have hmake := h.makeDir path
  have hexec := exec_makeLeaf mayExist path fs
  have hexec' := exec_makeLeaf mayExist path fs'
  rw [h.isDir] at hexec'
  generalize fs.makeDir path = r at hmake hexec
  generalize fs'.makeDir path = r' at hmake hexec'
  cases hmake with
  | done hafter => exact .of_exec hexec hexec' hafter
  | refused r =>
    dsimp only at hexec hexec'
    split at hexec
    · next hthere =>
      rw [if_pos hthere] at hexec'
      exact .of_exec hexec hexec' h
    · next hthere =>
      rw [if_neg hthere] at hexec'
      exact .of_exec hexec hexec' h

omit h in
theorem parallel_makeDirsWithin (mayExist : Bool) (depth : Nat) (path : String)
    (h : Rewritten handle o fs fs') :
    Parallel (Rewritten handle o) (makeDirsWithin mayExist depth path) fs fs' := by
  induction depth generalizing fs fs' path with
  | zero => exact parallel_makeLeaf h mayExist path
  | succ depth ih =>
    rcases hsplit : Path.splitParent path with ⟨parent, name⟩
    rw [makeDirsWithin, hsplit]
    refine Parallel.get_bind ?_ (by simp only [h.pathExists])
    split
    · exact parallel_makeLeaf h mayExist path
    · refine ((ih parent h).tryCatch fun fault k k' _ _ hk => ?_).bind fun _ k k' _ _ hk => ?_
      · split
        · exact .pure hk ()
        · exact .throw hk _
      · split
        · exact .pure hk ()
        · exact parallel_makeLeaf hk mayExist path

theorem parallel_ensureDirs (path : String) :
    Parallel (Rewritten handle o) (ensureDirs path) fs fs' :=
  parallel_makeDirsWithin true path.length path h

theorem parallel_makeNewDirs (path : String) :
    Parallel (Rewritten handle o) (makeNewDirs path) fs fs' :=
  parallel_makeDirsWithin false path.length path h

/-! ### Removing -/

theorem parallel_removeTree (hpath : fs.Spares o path) :
    Parallel (Rewritten handle o) (removeTree path) fs fs' := by
  have hexec := exec_removeTree path fs
  have hexec' := exec_removeTree path fs'
  rcases h.same.find_cases path false with ⟨r, hf, hf'⟩ | ⟨l, node, node', hf, hf', hcounter⟩ <;>
    rw [hf] at hexec <;> rw [hf'] at hexec'
  · exact .of_exec hexec hexec' h
  · obtain ⟨rfl, hapart⟩ := hcounter.eq_of_not_above (hpath l node hf)
    cases node' with
    | file f | link target | device => exact .of_exec hexec hexec' h
    | dir entries =>
      have hcleared := h.clear hapart
      have hremove : Parallel (Rewritten handle o) (call path fun fs => fs.removeDir path)
          (fs.clear l) (fs'.clear l) := parallel_call hcleared (hcleared.removeDir path)
      exact ⟨by rw [hexec, hexec']; exact hremove.result,
        by rw [hexec, hexec']; exact hremove.states⟩

theorem parallel_removeTreeQuietly (hpath : fs.Spares o path) :
    Parallel (Rewritten handle o) (removeTreeQuietly path) fs fs' :=
  (parallel_removeTree h hpath).tryCatch fun _ _ _ _ _ hk => .pure hk ()

/-! ### Copying single entries -/

theorem parallel_makeLink (target path : String) :
    Parallel (Rewritten handle o) (makeLink target path) fs fs' := by
  have hmake := h.makeLink path target
  have hexec := exec_makeLink target path fs
  have hexec' := exec_makeLink target path fs'
  generalize fs.makeLink path target = r at hmake hexec
  generalize fs'.makeLink path target = r' at hmake hexec'
  cases hmake with
  | done hafter => exact .of_exec hexec hexec' hafter
  | refused r => cases r <;> exact .of_exec hexec hexec' h

/-- A link is read and made again somewhere else. -/
theorem parallel_copyLink (src dst : String) :
    Parallel (Rewritten handle o)
      (ask src (fun fs => fs.readLink src) >>= fun target => makeLink target dst) fs fs' := by
  refine (parallel_ask h src (h.readLink src)).bind fun target k k' _ _ hk => ?_
  exact parallel_makeLink hk target dst

theorem parallel_copyFile (hsrc : fs.Avoids o src) (hfree : fs.Free dst l) :
    Parallel (Rewritten handle o) (copyFile src dst) fs fs' := by
  have hstore (bytes : Bytes) :
      Parallel (Rewritten handle o) (call dst fun fs => fs.store dst bytes) fs fs' :=
    parallel_call h (h.store hfree.foreign bytes)
  have hne := h.ne_of_free hfree.entry
  rw [copyFile]
  rcases h.same.find_cases src true with ⟨r, hf, hf'⟩ | ⟨m, node, node', hf, hf', hcounter⟩
  · have hask := parallel_ask h src (f := fun fs => fs.find src) (hf'.trans hf.symm)
    refine hask.bind fun found k k' hk _ _ => ?_
    rw [exec_ask, hf] at hk
    cases hk
  · rcases hcounter.cases_of_ne (fun e he hm => hsrc e he node (hm ▸ hf)) with
      ⟨rfl, -⟩ | ⟨entries, entries', rfl, rfl, -⟩
    · have hask := parallel_ask h src (f := fun fs => fs.find src) (hf'.trans hf.symm)
      refine hask.bind fun found k k' hk hk' _ => ?_
      rw [exec_ask, hf] at hk
      rw [exec_ask, hf'] at hk'
      cases hk
      cases hk'
      cases node' with
      | dir entries => exact .throw h _
      | link target | device => exact hstore []
      | file f =>
        refine (hstore f.bytes).bind fun _ stored stored' hstored _ hrewritten => ?_
        have hthere : ∃ g, stored.find dst = .ok (l, .file g) := by
          rw [exec_call] at hstored
          cases hs : fs.store dst f.bytes with
          | error r => rw [hs] at hstored; cases hstored
          | ok k =>
            rw [hs] at hstored
            cases hstored
            exact (hfree.store hs).2
        obtain ⟨g, hfind⟩ := hthere
        refine parallel_call hrewritten ?_
        rcases hrewritten.same.find_cases dst true with ⟨r, hf, -⟩ | ⟨m, _, _, hf, hf', hcounter⟩
        · cases hfind.symm.trans hf
        · cases hfind.symm.trans hf
          rw [hf, hf']
          cases hcounter with
          | same hapart => exact .done (hrewritten.place hapart _)
          | file ho _ => exact absurd rfl (hne l ho)
    · -- A directory is refused in both, whatever it holds.
      have hask : exec (ask src fun fs => fs.find src) fs = (.ok (m, .dir entries), fs) := by
        rw [exec_ask, hf]
      have hask' : exec (ask src fun fs => fs.find src) fs' = (.ok (m, .dir entries'), fs') := by
        rw [exec_ask, hf']
      refine .of_exec (r := .error (.refused .isDirectory src)) ?_ ?_ h
      · rw [exec_bind, hask]
        exact exec_throw _ _
      · rw [exec_bind, hask']
        exact exec_throw _ _

end

/-! ### Copying trees -/

/-- A copy to a free name in a directory does not heed a file that is not below its source. -/
def HeedlessCopy (handle : Nat) (o : Option Location) (copy : String → String → FileOp Unit) : Prop :=
  ∀ ⦃fs fs' : FileSystem⦄ ⦃src dir name : String⦄ ⦃top d : Location⦄, Rewritten handle o fs fs' →
    fs.WellFormed → fs.DirAt src top → (∀ e ∈ o, ¬ top <+: e) → fs.DirAt dir d → IsName name →
    fs.entryAt (d ++ [name]) = none →
    Parallel (Rewritten handle o) (copy src (Path.join dir name)) fs fs'

section

variable {copy : String → String → FileOp Unit} {dir name : String} {top : Location}

theorem parallel_copyEntry (hcopy : HeedlessCopy handle o copy) (h : Rewritten handle o fs fs')
    (hwf : fs.WellFormed) (hsrc : fs.DirAt src top) (htop : ∀ e ∈ o, ¬ top <+: e)
    (hdir : fs.DirAt dir d) (hname : IsName name) (hentry : fs.entryAt (d ++ [name]) = none) :
    Parallel (Rewritten handle o) (copyEntry copy true (Path.join src name) (Path.join dir name))
      fs fs' := by
  have hfree := FileSystem.free_join hdir hname hentry
  have hbelow : ∀ e ∈ o, ¬ top ++ [name] <+: e :=
    fun e he hp => htop e he ((List.prefix_append top [name]).trans hp)
  refine Parallel.get_bind ?_ (by simp only [h.isLink, h.isDir])
  cases hlink : fs.isLink (Path.join src name) with
  | true => exact parallel_copyLink h _ _
  | false =>
    have hlocation {m : Location} {node : Node}
        (hfind : fs.find (Path.join src name) = .ok (m, node)) : m = top ++ [name] :=
      FileSystem.location_join hname hsrc (fun _ => hlink) hfind
    simp only [Bool.and_false, Bool.false_eq_true, if_false]
    split
    · next hisDir =>
      obtain ⟨m, entries, hfind⟩ := FileSystem.isDir_iff.mp hisDir
      obtain rfl := hlocation hfind
      exact hcopy h hwf ⟨entries, hfind⟩ hbelow hdir hname hentry
    · refine parallel_copyFile h (fun e he node hfind => ?_) hfree
      obtain rfl := hlocation hfind
      exact hbelow _ he List.prefix_rfl

/-- The names are taken one after the other, as in `copyEntries_confined`. -/
theorem parallel_copyEntries (hcopy : HeedlessCopy handle o copy) (hconfined : Confined copy)
    (hsound : ∀ src dst, Sound (copy src dst)) {names : List String}
    (h : Rewritten handle o fs fs') (hwf : fs.WellFormed) (hsrc : fs.DirAt src top)
    (htop : ∀ e ∈ o, ¬ top <+: e) (hdir : fs.DirAt dir d) (hnames : ∀ n ∈ names, IsName n)
    (hnodup : names.Nodup) (hentries : ∀ n ∈ names, fs.entryAt (d ++ [n]) = none) :
    Parallel (Rewritten handle o) (copyEntries copy true src dir names) fs fs' := by
  induction names generalizing fs fs' with
  | nil => exact .pure h []
  | cons name rest ih =>
    obtain ⟨hname, hrest⟩ := List.forall_mem_cons.mp hnames
    obtain ⟨hentry, hmore⟩ := List.forall_mem_cons.mp hentries
    obtain ⟨hnew, hnodup⟩ := List.nodup_cons.mp hnodup
    have hfirst := parallel_copyEntry hcopy h hwf hsrc htop hdir hname hentry
    rw [copyEntries]
    refine Parallel.bind (Parallel.tryCatch (hfirst.bind fun _ k k' _ _ hk => .pure hk [])
      fun fault k k' _ _ hk => ?_) fun missed mid mid' hmid _ hk => ?_
    · split
      · exact .pure hk _
      · exact .throw hk _
    · have hstate := exec_tryEntry hmid
      have hout := copyEntry_sameOutside hconfined (Path.join src name) hwf hdir hname hentry
      have hwf' := (sound_copyEntry hsound true (Path.join src name) (Path.join dir name) fs).1 hwf
      rw [hstate] at hout hwf'
      have hgrows := hout.grows hentry
      exact (ih hk hwf' (hsrc.grows hgrows) (hdir.grows hgrows) hrest hnodup
        (entries_left hout hnew hmore)).bind fun more k k' _ _ hk => .pure hk _

/-- A copy of a directory, once it is known where the new one is made. -/
theorem parallel_copyTreeWithin_succ {depth : Nat}
    (hcopy : HeedlessCopy handle o (copyTreeWithin true depth)) (h : Rewritten handle o fs fs')
    (hwf : fs.WellFormed) (hsrc : fs.DirAt src top) (htop : ∀ e ∈ o, ¬ top <+: e)
    (hmade : ∀ mid, exec (makeNewDirs dst) fs = (.ok (), mid) → Grows fs mid ∧ mid.WellFormed ∧
      ∃ l, mid.DirAt dst l ∧ mid.get? l = some (.dir [])) :
    Parallel (Rewritten handle o) (copyTreeWithin true (depth + 1) src dst) fs fs' := by
  rw [copyTreeWithin]
  refine (parallel_ask h src (h.listDir src)).bind fun names k k' hask _ hk => ?_
  obtain ⟨rfl, hnames⟩ : k = fs ∧ fs.listDir src = .ok names := by
    rw [exec_ask] at hask
    cases hlist : fs.listDir src <;> rw [hlist] at hask <;> cases hask
    exact ⟨rfl, rfl⟩
  obtain ⟨hisName, hnodup⟩ := of_listDir hwf hnames
  refine (parallel_makeNewDirs hk dst).bind fun _ mid mid' hmid _ hk => ?_
  obtain ⟨hgrows, hwf', l, hdir, hempty⟩ := hmade mid hmid
  refine (parallel_copyEntries hcopy (confined_copyTreeWithin depth)
    (sound_copyTreeWithin true depth) hk hwf' (hsrc.grows hgrows) htop hdir hisName hnodup
    fun n _ => FileSystem.entryAt_below_emptyDir hempty).bind fun missed k k' _ _ hk => ?_
  have hend (parts : List (String × String × String)) :
      Parallel (Rewritten handle o)
        (if parts = [] then pure () else throw (.notCopied parts) : FileOp Unit) k k' := by
    split
    · exact .pure hk ()
    · exact .throw hk _
  -- Whether the directory is absent at the end is the same for both.
  rcases hk.same.find_cases dst true with ⟨r, hf, hf'⟩ | ⟨m, _, _, hf, hf', -⟩
  · refine Parallel.get_bind ?_ (by simp only [hf, hf'])
    simp only [hf]
    exact hend _
  · refine Parallel.get_bind ?_ (by simp only [hf, hf'])
    simp only [hf]
    exact hend _

theorem heedless_copyTreeWithin (depth : Nat) : HeedlessCopy handle o (copyTreeWithin true depth) := by
  induction depth with
  | zero => exact fun fs fs' src dir name top d h _ _ _ _ _ _ => .throw h _
  | succ depth ih =>
    intro fs fs' src dir name top d h hwf hsrc htop hdir hname hentry
    refine parallel_copyTreeWithin_succ ih h hwf hsrc htop fun mid hmid => ?_
    -- Its parent is there, so only the directory itself is made.
    rw [exec_makeNewDirs_join hdir hname] at hmid
    have hmake := makeLeaf_eq_ok hmid
    have hfree := FileSystem.free_join hdir hname hentry
    obtain ⟨hplace, hthere, hempty⟩ := hfree.makeDir hmake
    refine ⟨?_, hwf.makeDir hmake, _, hthere, hempty⟩
    rw [hplace]
    exact (SameOutside.place fs (d ++ [name]) _).grows hentry

/-- A tree is copied that the file is not in. -/
theorem parallel_copyTree (h : Rewritten handle o fs fs') (hwf : fs.WellFormed)
    (hname : (Path.splitParent dst).2 ≠ ".") (hsrc : fs.DirAt src top)
    (htop : ∀ e ∈ o, ¬ top <+: e) :
    Parallel (Rewritten handle o) (copyTree true src dst) fs fs' := by
  refine parallel_copyTreeWithin_succ (heedless_copyTreeWithin (FileSystem.pathLimit - 1)) h hwf
    hsrc htop fun mid hmid => ?_
  obtain ⟨parents, hadds, hwf', hmake⟩ := makeNewDirs_eq_ok hwf hname hmid
  obtain ⟨l, hfree⟩ := FileSystem.free_of_create hmake
  obtain ⟨hplace, hthere, hempty⟩ := hfree.makeDir hmake
  refine ⟨FileSystem.frame_grows.trans hadds.toGrows ?_, hwf'.makeDir hmake, l, hthere, hempty⟩
  rw [hplace]
  exact (SameOutside.place parents l _).grows hfree.entry

end

/-! ### Moving -/

section

variable (h : Rewritten handle o fs fs')
include h

theorem parallel_currentDir : Parallel (Rewritten handle o) currentDir fs fs' := by
  have hexec' := exec_currentDir fs'
  rw [h.cwd] at hexec'
  exact .of_exec (exec_currentDir fs) hexec' h

theorem parallel_absolute (path : String) :
    Parallel (Rewritten handle o) (absolute path) fs fs' := by
  rw [absolute]
  split
  · exact .pure h _
  · exact (parallel_currentDir h).bind fun dir k k' _ _ hk => .pure hk _

omit h in
/-- Something that is no directory is replaced by its copy. -/
theorem parallel_replace {op : FileOp Unit} (hop : Parallel (Rewritten handle o) op fs fs')
    (hsrc : fs.Spares o src)
    (hout : ∀ k, exec op fs = (.ok (), k) →
      Grows fs k ∧ ∃ m node, fs.find src false = .ok (m, node)) :
    Parallel (Rewritten handle o) (op >>= fun _ => call src fun fs => fs.removeFile src) fs fs' := by
  refine hop.bind fun _ k k' hk _ hrewritten => ?_
  obtain ⟨hgrows, m, node, hfind⟩ := hout k hk
  exact parallel_call hrewritten (hrewritten.removeFile (hsrc.grows hfind hgrows).avoids.foreign)

theorem parallel_moveByCopy (hwf : fs.WellFormed) (hfree : fs.Free dst l)
    (hname : (Path.splitParent dst).2 ≠ ".") (hsrc : fs.Spares o src) :
    Parallel (Rewritten handle o) (moveByCopy src dst) fs fs' := by
  refine Parallel.get_bind ?_ (by simp only [h.isLink, h.isDir])
  split
  · rw [← bind_assoc]
    refine parallel_replace (parallel_copyLink h src dst) hsrc fun k hk => ?_
    obtain ⟨target, mid, hask, hlink⟩ := Attempt.exec_bind_eq_ok.mp hk
    rw [exec_ask] at hask
    cases hread : fs.readLink src with
    | error r => rw [hread] at hask; cases hask
    | ok text =>
      rw [hread] at hask
      cases hask
      have hout := makeLink_sameOutside target hfree
      rw [hlink] at hout
      obtain ⟨m, hfind⟩ := find_of_readLink hread
      exact ⟨hout.grows hfree.entry, m, _, hfind⟩
  · next hlink =>
    have hlink := Bool.eq_false_iff.mpr hlink
    split
    · next hdir =>
      obtain ⟨top, entries, hfind⟩ := find_of_isDir hlink hdir
      have htop := hsrc top _ hfind
      refine (parallel_absolute h src).bind fun a k k' ha _ hk => ?_
      obtain rfl := exec_absolute ha
      refine (parallel_absolute hk dst).bind fun b m m' hb _ hm => ?_
      obtain rfl := exec_absolute hb
      have hcopy : Parallel (Rewritten handle o) (copyTree true src dst >>= fun _ => removeTree src)
          m m' := by
        have htree : m.DirAt src top := ⟨entries, (FileSystem.find_dir_iff.mp hfind).2⟩
        refine (parallel_copyTree hm hwf hname htree htop).bind fun _ copy _ hcopied _ hc => ?_
        exact parallel_removeTree hc (hsrc.grows hfind (copyTree_creates hwf hname hcopied).1)
      dsimp only
      split
      · exact .throw hm _
      · exact hcopy
    · next hdir =>
      have hdir := Bool.eq_false_iff.mpr hdir
      have hcopy := parallel_copyFile h (hsrc.avoids_of_isLink hlink) hfree
      refine parallel_replace hcopy hsrc fun k hk => ?_
      have hout := copyFile_sameOutside src hfree
      rw [hk] at hout
      obtain ⟨m, node, hfind, -⟩ := find_of_copyFile hlink hdir hk
      exact ⟨hout.grows hfree.entry, m, node, hfind⟩

/-- A move to a free path does not heed a file that is not in what is moved. -/
theorem parallel_move (hwf : fs.WellFormed) (hfree : fs.Free dst l)
    (hname : (Path.splitParent dst).2 ≠ ".") (hsrc : fs.Spares o src) :
    Parallel (Rewritten handle o) (move src dst) fs fs' := by
  have hrename := h.rename hsrc hfree.foreign
  have hexec := exec_move src dst fs
  have hexec' := exec_move src dst fs'
  generalize fs.rename src dst = r at hrename hexec
  generalize fs'.rename src dst = r' at hrename hexec'
  cases hrename with
  | done hafter => exact .of_exec hexec hexec' hafter
  | refused r =>
    cases r with
    | nul => exact .of_exec hexec hexec' h
    | system e =>
      have hcopy := parallel_moveByCopy h hwf hfree hname hsrc
      exact ⟨by rw [hexec, hexec']; exact hcopy.result, by rw [hexec, hexec']; exact hcopy.states⟩

end

end FileOp

end MonitoredCompile
