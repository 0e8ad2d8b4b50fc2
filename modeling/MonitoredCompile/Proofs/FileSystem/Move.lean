/-
MonitoredCompile/Proofs/FileSystem/Move.lean

How a move to a free path ends.  `Moved` has one case for each way, and every move
ends in one of them (`moved`).  A move that fails has lost nothing, with one
exception: a directory that was copied as a whole but could not be removed by its
path after that.  It is emptied before its path is looked at.
-/
import MonitoredCompile.Proofs.FileSystem.Copy

namespace MonitoredCompile

open Attempt (exec exec_bind exec_get)

namespace FileSystem

variable {fs : FileSystem} {path : String} {l : Location}

/-- A walk that follows a link at its end comes past something also if it does not. -/
theorem Leads.unfollowed {look : Location → Option Entry} {links : Nat} {here there : Location}
    {names : List String} (h : Leads look true links here names there) (hthere : look there ≠ none) :
    ∃ there', Leads look false links here names there' ∧ look there' ≠ none := by
  induction h with
  | here hl => exact ⟨_, .here hl, hthere⟩
  | stay hl _ ih =>
    obtain ⟨there', hwalk, hlook⟩ := ih hthere
    exact ⟨there', .stay hl hwalk, hlook⟩
  | up hl _ ih =>
    obtain ⟨there', hwalk, hlook⟩ := ih hthere
    exact ⟨there', .up hl hwalk, hlook⟩
  | last hl hstep _ => exact ⟨_, .last hl hstep fun _ _ => rfl, hthere⟩
  | down hl hstep hlook hlink hrest _ ih =>
    obtain ⟨there', hwalk, hlook'⟩ := ih hthere
    exact ⟨there', .down hl hstep hlook hlink hrest hwalk, hlook'⟩
  | @jump links here name target rest there hl hstep hlook _ _ ih =>
    by_cases hrest : rest = []
    -- At its end the walk that does not follow links stays at the link.
    · subst hrest
      exact ⟨_, .last hl hstep fun _ _ => rfl, by simp [hlook]⟩
    · obtain ⟨there', hwalk, hlook'⟩ := ih hthere
      exact ⟨there', .jump hl hstep hlook (fun h => absurd h hrest) hwalk, hlook'⟩

/-- What a path leads to it also leads to where links are followed, unless it is a
link. -/
theorem find_follow {node : Node} (h : fs.find path false = .ok (l, node))
    (hlink : ∀ target, node ≠ .link target) : fs.find path = .ok (l, node) := by
  obtain ⟨⟨hflaw, here, hhere, hleads⟩, hget⟩ := find_eq_ok_iff.mp h
  refine find_eq_ok_iff.mpr ⟨⟨hflaw, here, hhere, hleads.follows fun target htarget => ?_⟩, hget⟩
  rw [entryAt_of_get? hget, Option.some.injEq, Node.entry_eq_link] at htarget
  exact hlink target htarget

theorem find_unfollowed {node : Node} (h : fs.find path = .ok (l, node)) :
    ∃ l' node', fs.find path false = .ok (l', node') := by
  obtain ⟨⟨hflaw, here, hhere, hleads⟩, hget⟩ := find_eq_ok_iff.mp h
  obtain ⟨l', hleads', hlook⟩ := hleads.unfollowed (by rw [entryAt_of_get? hget]; simp)
  cases hget' : fs.get? l' with
  | none => exact absurd (Option.map_eq_none_iff.mpr hget') hlook
  | some node' => exact ⟨l', node', find_eq_ok_iff.mpr ⟨⟨hflaw, here, hhere, hleads'⟩, hget'⟩⟩

/-- A path that leads to a directory, and not by a link at its end. -/
theorem find_dir_iff {l : Location} {entries : List (String × Node)} :
    fs.find path false = .ok (l, .dir entries) ↔
      fs.isLink path = false ∧ fs.find path = .ok (l, .dir entries) := by
  constructor
  · intro h
    exact ⟨by rw [isLink, h], find_follow h (by simp)⟩
  · rintro ⟨hlink, h⟩
    obtain ⟨l', node', h'⟩ := find_unfollowed h
    have hnolink : ∀ target, node' ≠ .link target := by
      rintro target rfl
      rw [isLink, h'] at hlink
      cases hlink
    rw [find_follow h' hnolink] at h
    cases h
    exact h'

/-! ### A directory without what it held -/

theorem entryAt_clear {m : Location} (hm : ¬ l <+: m) : (fs.clear l).entryAt m = fs.entryAt m :=
  entryAt_place hm (.dir [])

theorem entryAt_clear_self {node : Node} (h : fs.get? l = some node) :
    (fs.clear l).entryAt l = some .dir := by
  have hplaced : (fs.place l (.dir [])).get? l = some (.dir []) := get?_place h (.dir [])
  exact entryAt_of_get? hplaced

theorem entryAt_clear_below {node : Node} {name : String} {k : Location}
    (h : fs.get? l = some node) : (fs.clear l).entryAt (l ++ name :: k) = none := by
  have hplaced : (fs.place l (.dir [])).get? l = some (.dir []) := get?_place h (.dir [])
  exact entryAt_below_emptyDir hplaced

end FileSystem

namespace FileOp

open FileSystem (Grows SameOutside)

variable {fs fs' mid : FileSystem} {src dst : String}

/-! ### The branches of a move -/

theorem exec_move (src dst : String) (fs : FileSystem) :
    exec (move src dst) fs =
      match fs.rename src dst with
      | .ok after => (.ok (), after)
      | .error .nul => (.error .nul, fs)
      | .error (.system _) => exec (moveByCopy src dst) fs := by
  rw [move, exec_bind, exec_get]
  dsimp only
  cases fs.rename src dst with
  | ok after => rfl
  | error r => cases r <;> rfl

theorem exec_absolute {path : String} {r : Except FileFault String}
    (h : exec (absolute path) fs = (r, fs')) : fs' = fs := by
  rw [absolute] at h
  split at h
  · exact (Prod.mk.inj h).2.symm
  · rw [exec_bind, exec_currentDir] at h
    cases hcwd : fs.cwd <;> rw [hcwd] at h <;> exact (Prod.mk.inj h).2.symm

/-- The move is one by copying, the source is a directory with these entries, the
texts of the two paths are apart, and the whole tree has been copied. -/
structure CopiedAside (src dst : String) (entries : List (String × Node))
    (fs fs' : FileSystem) : Prop where
  refused : ∃ e, fs.rename src dst = .error (.system e)
  directory : ∃ l, fs.find src false = .ok (l, .dir entries)
  apart : ∃ a b, exec (absolute src) fs = (.ok a, fs) ∧ exec (absolute dst) fs = (.ok b, fs) ∧
    Path.isWithin a b = false
  copied : exec (copyTree true src dst) fs = (.ok (), fs')

/-- A directory that is not renamed is copied, and then its original is removed. -/
theorem exec_move_tree {e : Errno} {l : Location} {entries : List (String × Node)}
    (hrefused : fs.rename src dst = .error (.system e))
    (hfind : fs.find src false = .ok (l, .dir entries)) :
    exec (move src dst) fs = exec (do
      let absoluteSrc ← absolute src
      let absoluteDst ← absolute dst
      if Path.isWithin absoluteSrc absoluteDst then throw (.intoItself src dst)
      copyTree true src dst
      removeTree src) fs := by
  obtain ⟨hlink, hfollow⟩ := FileSystem.find_dir_iff.mp hfind
  have hdir : fs.isDir src = true := by rw [FileSystem.isDir, hfollow]
  rw [exec_move, hrefused]
  dsimp only
  rw [moveByCopy, exec_bind, exec_get]
  simp only [hlink, hdir, if_true, if_false, Bool.false_eq_true]

/-- All that is left to do then is to remove the source. -/
theorem exec_move_of_copiedAside {entries : List (String × Node)}
    (h : CopiedAside src dst entries fs mid) :
    exec (move src dst) fs = exec (removeTree src) mid := by
  obtain ⟨⟨e, hrefused⟩, ⟨l, hfind⟩, ⟨a, b, ha, hb, hwithin⟩, hcopied⟩ := h
  rw [exec_move_tree hrefused hfind, exec_bind, ha]
  dsimp only
  rw [exec_bind, hb]
  simp only [hwithin, if_false, Bool.false_eq_true]
  rw [exec_bind, hcopied]

/-! ### The ways a move ends -/

inductive Moved (src dst : String) (fs : FileSystem) : Except FileFault Unit → FileSystem → Prop
  | renamed {after : FileSystem} : fs.rename src dst = .ok after → Moved src dst fs (.ok ()) after
  /-- What was copied was no directory, and the original was removed. -/
  | replaced {copy after : FileSystem} {l : Location} {node : Node} :
      fs.find src false = .ok (l, node) → (∀ entries, node ≠ .dir entries) → Creates dst fs copy →
      copy.removeFile src = .ok after → Moved src dst fs (.ok ()) after
  | copied {copy after : FileSystem} {entries : List (String × Node)} :
      CopiedAside src dst entries fs copy → exec (removeTree src) copy = (.ok (), after) →
      Moved src dst fs (.ok ()) after
  /-- The copy was made and the original could not be removed. -/
  | emptied {copy after : FileSystem} {entries : List (String × Node)} {fault : FileFault} :
      CopiedAside src dst entries fs copy → exec (removeTree src) copy = (.error fault, after) →
      Moved src dst fs (.error fault) after
  | failed {after : FileSystem} {fault : FileFault} : Grows fs after →
      Moved src dst fs (.error fault) after

/-- A copy that was no directory's, with the removal of the original after it. -/
theorem moved_replace {op : FileOp Unit} {l : Location} {r : Except FileFault Unit}
    (hfree : fs.Free dst l) (hout : SameOutside l fs (exec op fs).2)
    (hsource : ∀ {mid}, exec op fs = (.ok (), mid) →
      ∃ m node, fs.find src false = .ok (m, node) ∧ ∀ entries, node ≠ .dir entries)
    (htarget : ∀ {mid}, exec op fs = (.ok (), mid) → ∃ follow t, fs.target dst follow = .ok t)
    (h : exec (op >>= fun _ => call src fun fs => fs.removeFile src) fs = (r, fs')) :
    Moved src dst fs r fs' := by
  rw [exec_bind] at h
  rcases hop : exec op fs with ⟨fault | ⟨⟩, mid⟩
  · rw [hop] at h hout
    cases h
    exact .failed (hout.grows hfree.entry)
  · rw [hop] at h hout
    dsimp only at h
    rw [exec_call] at h
    cases hremove : mid.removeFile src with
    | error e =>
      rw [hremove] at h
      cases h
      exact .failed (hout.grows hfree.entry)
    | ok after =>
      rw [hremove] at h
      cases h
      obtain ⟨follow, t, ht⟩ := htarget hop
      obtain ⟨m, node, hfind, hnode⟩ := hsource hop
      exact .replaced hfind hnode ⟨fs, l, follow, t, .refl fs, hfree, ht, hout⟩ hremove

theorem target_of_copyFile {l : Location} (hfree : fs.Free dst l)
    (h : exec (copyFile src dst) fs = (.ok (), fs')) :
    fs.target dst true = .ok (.name ⟨l, none⟩ false) := by
  rw [copyFile, exec_bind, exec_ask] at h
  cases hfind : fs.find src with
  | error r => rw [hfind] at h; cases h
  | ok found =>
    obtain ⟨m, node⟩ := found
    rw [hfind] at h
    have hstore {bytes : Bytes} {after : FileSystem}
        (hs : exec (call dst fun fs => fs.store dst bytes) fs = (.ok (), after)) :
        fs.target dst true = .ok (.name ⟨l, none⟩ false) := by
      rw [exec_call] at hs
      cases hb : fs.store dst bytes with
      | error r => rw [hb] at hs; cases hs
      | ok stored => exact (hfree.store_eq_ok hb).1
    cases node with
    | dir entries => cases h
    | link target => exact hstore h
    | device => exact hstore h
    | file f =>
      obtain ⟨⟨⟩, mid, hs, -⟩ := Attempt.exec_bind_eq_ok.mp h
      exact hstore hs

theorem target_of_makeLink {target : String} (h : exec (makeLink target dst) fs = (.ok (), fs')) :
    ∃ l, fs.target dst = .ok (.name ⟨l, none⟩ false) := by
  rw [makeLink, exec_bind, exec_get] at h
  dsimp only at h
  cases hlink : fs.makeLink dst target with
  | error r => rw [hlink] at h; cases r <;> cases h
  | ok after =>
    rw [FileSystem.makeLink] at hlink
    split at hlink
    · cases hlink
    · split at hlink
      · cases hlink
      · split at hlink
        · cases hlink
        · next hslash =>
          obtain ⟨l, slash, ht⟩ := FileSystem.target_of_create hlink
          cases slash with
          | true => exact absurd ht (hslash l)
          | false => exact ⟨l, ht⟩

theorem find_of_readLink {target : String} (h : fs.readLink src = .ok target) :
    ∃ l, fs.find src false = .ok (l, .link target) := by
  rw [FileSystem.readLink] at h
  split at h
  · cases h
  · next l target' hfind =>
    cases h
    exact ⟨l, hfind⟩
  · cases h

/-- What was copied as a file is what the path names, and no directory. -/
theorem find_of_copyFile (hlink : fs.isLink src = false) (hdir : fs.isDir src = false)
    (h : exec (copyFile src dst) fs = (.ok (), fs')) :
    ∃ l node, fs.find src false = .ok (l, node) ∧ ∀ entries, node ≠ .dir entries := by
  rw [copyFile, exec_bind, exec_ask] at h
  cases hfind : fs.find src with
  | error r =>
    rw [hfind] at h
    cases h
  | ok found =>
    obtain ⟨l, node⟩ := found
    obtain ⟨l', node', hfind'⟩ := FileSystem.find_unfollowed hfind
    have hnolink : ∀ target, node' ≠ .link target := by
      rintro target rfl
      rw [FileSystem.isLink, hfind'] at hlink
      cases hlink
    refine ⟨l', node', hfind', ?_⟩
    rintro entries rfl
    rw [FileSystem.isDir, FileSystem.find_follow hfind' hnolink] at hdir
    cases hdir

theorem find_of_isDir (hlink : fs.isLink src = false) (hdir : fs.isDir src = true) :
    ∃ l entries, fs.find src false = .ok (l, .dir entries) := by
  obtain ⟨l, entries, hfind⟩ := FileSystem.isDir_iff.mp hdir
  exact ⟨l, entries, FileSystem.find_dir_iff.mpr ⟨hlink, hfind⟩⟩

/-- The branch of a directory.  Nothing has happened as long as only the texts of the
two paths are compared. -/
theorem moved_tree {e : Errno} {l : Location} {entries : List (String × Node)}
    {r : Except FileFault Unit} (hfs : fs.WellFormed) (hname : (Path.splitParent dst).2 ≠ ".")
    (hrefused : fs.rename src dst = .error (.system e))
    (hfind : fs.find src false = .ok (l, .dir entries))
    (h : exec (move src dst) fs = (r, fs')) : Moved src dst fs r fs' := by
  have hsame : Grows fs fs := FileSystem.frame_grows.refl fs
  rw [exec_move_tree hrefused hfind, exec_bind] at h
  rcases ha : exec (absolute src) fs with ⟨fault | a, fs₁⟩
  · obtain rfl := exec_absolute ha
    rw [ha] at h
    cases h
    exact .failed hsame
  obtain rfl := exec_absolute ha
  rw [ha] at h
  dsimp only at h
  rw [exec_bind] at h
  rcases hb : exec (absolute dst) fs₁ with ⟨fault | b, fs₂⟩
  · obtain rfl := exec_absolute hb
    rw [hb] at h
    cases h
    exact .failed hsame
  obtain rfl := exec_absolute hb
  rw [hb] at h
  cases hwithin : Path.isWithin a b with
  | true =>
    simp only [hwithin, if_true] at h
    cases h
    exact .failed hsame
  | false =>
    simp only [hwithin, if_false, Bool.false_eq_true] at h
    rw [exec_bind] at h
    rcases hcopy : exec (copyTree true src dst) fs₂ with ⟨fault | ⟨⟩, mid⟩
    · rw [hcopy] at h
      cases h
      exact .failed (copyTree_creates hfs hname hcopy).1
    · rw [hcopy] at h
      have hcopied : CopiedAside src dst entries fs₂ mid :=
        ⟨⟨e, hrefused⟩, ⟨l, hfind⟩, ⟨a, b, ha, hb, hwithin⟩, hcopy⟩
      cases r with
      | ok => exact .copied hcopied h
      | error fault => exact .emptied hcopied h

/-- Every move to a free path ends in one of the ways. -/
theorem moved {l : Location} {r : Except FileFault Unit} (hfs : fs.WellFormed)
    (hfree : fs.Free dst l) (hname : (Path.splitParent dst).2 ≠ ".")
    (h : exec (move src dst) fs = (r, fs')) : Moved src dst fs r fs' := by
  have hsame : Grows fs fs := FileSystem.frame_grows.refl fs
  have hmove := h
  rw [exec_move] at h
  cases hrename : fs.rename src dst with
  | ok after =>
    rw [hrename] at h
    cases h
    exact .renamed hrename
  | error refusal =>
    rw [hrename] at h
    cases refusal with
    | nul =>
      -- The text of a path is refused before anything is tried.
      cases h
      exact .failed hsame
    | system e =>
      dsimp only at h
      rw [moveByCopy, exec_bind, exec_get] at h
      dsimp only at h
      split at h
      · rw [exec_bind, exec_ask] at h
        cases hread : fs.readLink src with
        | error e =>
          rw [hread] at h
          cases h
          exact .failed hsame
        | ok target =>
          rw [hread] at h
          obtain ⟨m, hfind⟩ := find_of_readLink hread
          exact moved_replace hfree (makeLink_sameOutside target hfree)
            (fun _ => ⟨m, .link target, hfind, nofun⟩)
            (fun hop => (target_of_makeLink hop).elim fun _ ht => ⟨false, _, ht⟩) h
      · next hlink =>
        split at h
        · next hdir =>
          obtain ⟨l, entries, hfind⟩ := find_of_isDir (Bool.eq_false_iff.mpr hlink) hdir
          exact moved_tree hfs hname hrename hfind hmove
        · next hdir =>
          exact moved_replace hfree (copyFile_sameOutside src hfree)
            (fun hop => find_of_copyFile (Bool.eq_false_iff.mpr hlink) (Bool.eq_false_iff.mpr hdir) hop)
            (fun hop => ⟨true, _, target_of_copyFile hfree hop⟩) h

/-! ### What a failed move has lost -/

/-- The file system after the source of a copy could not be removed: what the copy
left, without what the source held. -/
theorem removeTree_eq_error {entries : List (String × Node)} {fault : FileFault} (hfs : fs.WellFormed)
    (hname : (Path.splitParent dst).2 ≠ ".") (h : CopiedAside src dst entries fs mid)
    (hremove : exec (removeTree src) mid = (.error fault, fs')) :
    ∃ l node, fs.get? l = some (.dir entries) ∧ mid.get? l = some node ∧ fs' = mid.clear l := by
  obtain ⟨l, hfind⟩ := h.directory
  have hgrows := (copyTree_creates hfs hname h.copied).1
  obtain ⟨node, hfind', hentry⟩ := hgrows.find hfind
  obtain ⟨entries', rfl⟩ := Node.entry_eq_dir.mp hentry
  refine ⟨l, _, (FileSystem.find_eq_ok_iff.mp hfind).2, (FileSystem.find_eq_ok_iff.mp hfind').2, ?_⟩
  rw [exec_removeTree, hfind'] at hremove
  dsimp only at hremove
  rw [exec_call] at hremove
  cases hdir : (mid.clear l).removeDir src with
  | ok after => rw [hdir] at hremove; cases hremove
  | error r => rw [hdir] at hremove; exact (Prod.mk.inj hremove).2.symm

/-- A move that fails keeps everything, unless it has copied a directory that was not
empty. -/
theorem extends_iff_of_move_eq_error {l : Location} {fault : FileFault} (hfs : fs.WellFormed)
    (hfree : fs.Free dst l) (hname : (Path.splitParent dst).2 ≠ ".")
    (h : exec (move src dst) fs = (.error fault, fs')) :
    FileSystem.Extends fs fs' ↔
      ¬ ∃ mid entries, CopiedAside src dst entries fs mid ∧ entries ≠ [] := by
  constructor
  · rintro hext ⟨mid, entries, hcopied, hne⟩
    rw [exec_move_of_copiedAside hcopied] at h
    obtain ⟨top, node, hget, hget', rfl⟩ := removeTree_eq_error hfs hname hcopied h
    -- The first thing that the directory held is gone.
    obtain ⟨⟨name, child⟩, rest, rfl⟩ := List.exists_cons_of_ne_nil hne
    have hchild : fs.entryAt (top ++ [name]) = some child.entry := by
      refine FileSystem.entryAt_of_get? ?_
      show fs.root.get? (top ++ [name]) = some child
      rw [← FileSystem.find?_of_get? hget, Node.find?, if_pos rfl]
    have hafter := hext _ _ hchild
    rw [FileSystem.entryAt_clear_below hget'] at hafter
    cases hafter
  · intro hnone
    cases moved hfs hfree hname h with
    | failed hgrows => exact hgrows.extends_
    | @emptied mid _ entries _ hcopied hremove =>
      obtain rfl : entries = [] :=
        Decidable.byContradiction fun hne => hnone ⟨mid, entries, hcopied, hne⟩
      obtain ⟨top, node, hget, hget', rfl⟩ := removeTree_eq_error hfs hname hcopied hremove
      have hgrows := (copyTree_creates hfs hname hcopied.copied).1
      -- A directory that held nothing is after that what it was before.
      intro m e hm
      by_cases hbelow : top <+: m
      · obtain ⟨k, rfl⟩ := hbelow
        cases k with
        | nil =>
          rw [List.append_nil, FileSystem.entryAt_of_get? hget] at hm
          cases hm
          rw [List.append_nil]
          exact FileSystem.entryAt_clear_self hget'
        | cons name k =>
          rw [FileSystem.entryAt_below_emptyDir hget] at hm
          cases hm
      · rw [FileSystem.entryAt_clear hbelow]
        exact hgrows.extends_ m e hm

end FileOp

end MonitoredCompile
