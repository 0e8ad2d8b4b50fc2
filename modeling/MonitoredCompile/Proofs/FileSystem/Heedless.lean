/-
MonitoredCompile/Proofs/FileSystem/Heedless.lean

Calls that do not heed what an open file holds.  On two file systems that are `Rewritten` such a
call ends in the same way and leaves them rewritten again.  Every call is one that does not read,
replace or remove the file: making something needs no condition at all, a path that is opened or
read must not lead to the file (`Foreign`, `Avoids`), and what is moved or removed must not be the
file or have it below (`Spares`).
-/
import MonitoredCompile.Proofs.FileSystem.Opening
import MonitoredCompile.Proofs.FileSystem.Rewritten

namespace MonitoredCompile

/-- Two calls that are refused for the same reason, or have results that are related. -/
inductive SameEnd {ε α β : Type} (R : α → β → Prop) : Except ε α → Except ε β → Prop
  | refused (r : ε) : SameEnd R (.error r) (.error r)
  | done {a : α} {b : β} : R a b → SameEnd R (.ok a) (.ok b)

namespace FileSystem

variable {fs fs' after : FileSystem} {handle : Nat} {o : Option Location} {l : Location}
variable {path src dst : String} {follow : Bool}

/-- The path does not lead to the file. -/
def Avoids (fs : FileSystem) (o : Option Location) (path : String) (follow : Bool := true) : Prop :=
  ∀ e ∈ o, ∀ node, fs.find path follow ≠ .ok (e, node)

/-- The last name of the path, as calls take it, is not the file's. -/
def Foreign (fs : FileSystem) (o : Option Location) (path : String) (follow : Bool := false) : Prop :=
  ∀ e ∈ o, ∀ node, fs.target path follow ≠ .ok (.name ⟨e, some node⟩ false)

/-- The file is neither what the path names nor below that. -/
def Spares (fs : FileSystem) (o : Option Location) (path : String) : Prop :=
  ∀ l node, fs.find path false = .ok (l, node) → ∀ e ∈ o, ¬ l <+: e

instance : Decidable (fs.Avoids o path follow) :=
  decidable_of_iff (∀ e ∈ o, (fs.find path follow).toOption.map Prod.fst ≠ some e) <| by
    refine ⟨fun h e he node hfind => h e he (by rw [hfind]; rfl), fun h e he hfind => ?_⟩
    cases hf : fs.find path follow with
    | error r => rw [hf] at hfind; cases hfind
    | ok found =>
      rw [hf] at hfind
      cases hfind
      exact h _ he found.2 hf

instance : Decidable (fs.Spares o path) :=
  decidable_of_iff (∀ e ∈ o, ∀ l ∈ (fs.find path false).toOption.map Prod.fst, ¬ l <+: e) <| by
    refine ⟨fun h l node hfind e he => h e he l (by rw [hfind]; rfl), fun h e he l hl => ?_⟩
    cases hf : fs.find path false with
    | error r => rw [hf] at hl; cases hl
    | ok found =>
      rw [hf] at hl
      cases hl
      exact h _ found.2 hf e he

theorem Avoids.foreign (h : fs.Avoids o path follow) : fs.Foreign o path follow := by
  intro e he node ht
  cases follow with
  | false => exact h e he node (find_of_target ht nofun)
  | true => exact h e he node (find_of_target_follow ht).1

theorem Free.foreign (h : fs.Free path l) : fs.Foreign o path follow := by
  intro e _ node ht
  obtain ⟨slash, hname⟩ := h.target ht
  cases hname

theorem Spares.avoids (h : fs.Spares o path) : fs.Avoids o path false :=
  fun e he _ hfind => h e _ hfind e he List.prefix_rfl

/-- So it is in files that are all there. -/
theorem Spares.of_extends (h : after.Spares o path) (hext : Extends fs after)
    (hstart : SameStarts fs after path) : fs.Spares o path := by
  intro l node hfind
  obtain ⟨node', hfind', -⟩ := hext.find hstart hfind
  exact h l node' hfind'

/-- The same node, as long as the path avoids the file, or else a directory with the same names. -/
theorem Counterpart.cases_of_ne {node node' : Node} (h : Counterpart o l node node')
    (hne : ∀ e ∈ o, l ≠ e) : (node' = node ∧ ∀ e ∈ o, l.Apart e) ∨
      ∃ entries entries', node = .dir entries ∧ node' = .dir entries' ∧
        entries'.map (·.1) = entries.map (·.1) := by
  cases h with
  | same hapart => exact .inl ⟨rfl, hapart⟩
  | file ho _ => exact absurd rfl (hne l ho)
  | above _ _ _ hnames => exact .inr ⟨_, _, rfl, rfl, hnames⟩

theorem Counterpart.eq_of_not_above {node node' : Node} (h : Counterpart o l node node')
    (hnot : ∀ e ∈ o, ¬ l <+: e) : node' = node ∧ ∀ e ∈ o, l.Apart e := by
  cases h with
  | same hapart => exact ⟨rfl, hapart⟩
  | file ho _ => exact absurd List.prefix_rfl (hnot l ho)
  | above ho hl _ _ => exact absurd hl (hnot _ ho)

theorem Counterpart.isDirNode_eq {node node' : Node} (h : Counterpart o l node node') :
    isDirNode node' = isDirNode node := by
  cases h <;> rfl

namespace Rewritten

variable (h : Rewritten handle o fs fs')
include h

/-! ### Questions -/

theorem isLink (path : String) : fs'.isLink path = fs.isLink path := by
  rw [FileSystem.isLink, FileSystem.isLink]
  rcases h.same.find_cases path false with ⟨r, hf, hf'⟩ | ⟨l, node, node', hf, hf', hcounter⟩
  · rw [hf, hf']
  · rw [hf, hf']
    cases hcounter <;> rfl

theorem isDir (path : String) : fs'.isDir path = fs.isDir path := by
  rw [FileSystem.isDir, FileSystem.isDir]
  rcases h.same.find_cases path true with ⟨r, hf, hf'⟩ | ⟨l, node, node', hf, hf', hcounter⟩
  · rw [hf, hf']
  · rw [hf, hf']
    cases hcounter <;> rfl

theorem pathExists (path : String) : fs'.pathExists path = fs.pathExists path := by
  rw [FileSystem.pathExists, FileSystem.pathExists]
  rcases h.same.find_cases path true with ⟨r, hf, hf'⟩ | ⟨l, node, node', hf, hf', -⟩ <;> rw [hf, hf']

theorem readLink (path : String) : fs'.readLink path = fs.readLink path := by
  rw [FileSystem.readLink, FileSystem.readLink]
  rcases h.same.find_cases path false with ⟨r, hf, hf'⟩ | ⟨l, node, node', hf, hf', hcounter⟩
  · rw [hf, hf']
  · rw [hf, hf']
    cases hcounter <;> rfl

theorem listDir (path : String) : fs'.listDir path = fs.listDir path := by
  rw [FileSystem.listDir, FileSystem.listDir]
  rcases h.same.find_cases path true with ⟨r, hf, hf'⟩ | ⟨l, node, node', hf, hf', hcounter⟩
  · rw [hf, hf']
  · rw [hf, hf']
    cases hcounter with
    | same _ | file _ _ => rfl
    | above _ _ _ hnames => exact congrArg Except.ok hnames

theorem read (hpath : fs.Avoids o path) : fs'.read path = fs.read path := by
  rw [FileSystem.read, FileSystem.read]
  rcases h.same.find_cases path true with ⟨r, hf, hf'⟩ | ⟨l, node, node', hf, hf', hcounter⟩
  · rw [hf, hf']
  · rw [hf, hf']
    rcases hcounter.cases_of_ne (fun e he hl => hpath e he node (hl ▸ hf)) with
      ⟨rfl, -⟩ | ⟨_, _, rfl, rfl, -⟩ <;> rfl

/-- A path leads away from the file whatever this holds. -/
theorem avoids (hpath : fs.Avoids o path follow) : fs'.Avoids o path follow := by
  intro e he node hfind
  rcases h.same.find_cases path follow with ⟨r, -, hf'⟩ | ⟨l, node, node', hf, hf', -⟩
  · cases hf'.symm.trans hfind
  · cases hf'.symm.trans hfind
    exact hpath e he node hf

theorem spares (hpath : fs.Spares o path) : fs'.Spares o path := by
  intro l node hfind
  rcases h.same.find_cases path false with ⟨r, -, hf'⟩ | ⟨m, found, found', hf, hf', -⟩
  · cases hf'.symm.trans hfind
  · cases hf'.symm.trans hfind
    exact hpath l found hf

/-! ### Making something -/

theorem create (path : String) (node : Node) :
    SameEnd (Rewritten handle o) (fs.create path node) (fs'.create path node) := by
  rw [FileSystem.create, FileSystem.create]
  rcases h.same.target_cases path false with ⟨r, ht, ht'⟩ | ⟨t, ht, ht', hname⟩ |
    ⟨l, slash, ht, ht', hapart⟩ | ⟨l, _, _, slash, ht, ht', -⟩ <;> rw [ht, ht']
  · exact .refused r
  · cases t with
    | name place slash => exact absurd rfl (hname place slash)
    | root | here | above => exact .refused _
  · exact .done (h.place hapart node)
  · exact .refused _

theorem makeDir (path : String) :
    SameEnd (Rewritten handle o) (fs.makeDir path) (fs'.makeDir path) :=
  h.create path (.dir [])

theorem makeLink (path target : String) :
    SameEnd (Rewritten handle o) (fs.makeLink path target) (fs'.makeLink path target) := by
  have hcreate := h.create path (.link target)
  rw [FileSystem.makeLink, FileSystem.makeLink]
  split
  · exact .refused _
  · cases flaw? target with
    | some r => exact .refused r
    | none =>
      dsimp only
      rcases h.same.target_cases path false with ⟨r, ht, ht'⟩ | ⟨t, ht, ht', hname⟩ |
        ⟨l, slash, ht, ht', -⟩ | ⟨l, _, _, slash, ht, ht', -⟩ <;> rw [ht, ht']
      · exact hcreate
      · cases t with
        | name place slash => exact absurd rfl (hname place slash)
        | root | here | above => exact hcreate
      · cases slash with
        | true => exact .refused _
        | false => exact hcreate
      · exact hcreate

/-! ### Opening -/

/-- A path is opened in both, with the same handle, which is not one of the file. -/
theorem openTruncated (hpath : fs.Foreign o path true) :
    SameEnd (fun a b => Rewritten handle o a.1 b.1 ∧ b.2 = a.2 ∧
        ∀ e ∈ o, (a.1.opened[a.2]?).bind OpenFile.location ≠ some e)
      (fs.openTruncated path) (fs'.openTruncated path) := by
  -- Whatever came of the tree, what is opened then is elsewhere.
  have hopen {mid mid' : FileSystem} (hmid : Rewritten handle o mid mid') {there : Option Location}
      (hthere : ∀ e ∈ o, there ≠ some e) :
      SameEnd (fun a b => Rewritten handle o a.1 b.1 ∧ b.2 = a.2 ∧
          ∀ e ∈ o, (a.1.opened[a.2]?).bind OpenFile.location ≠ some e)
        (Except.ok (mid.openAt there) : Except Refusal _) (.ok (mid'.openAt there)) := by
    obtain ⟨hopened, hhandle⟩ := hmid.openAt there
    refine .done ⟨hopened, hhandle, fun e he => ?_⟩
    rw [FileSystem.openAt, List.getElem?_concat_length]
    exact hthere e he
  have hne {l : Location} (hl : ∀ e ∈ o, l.Apart e) : ∀ e ∈ o, some l ≠ some e :=
    fun e he heq => (hl e he).not_above (Option.some.inj heq ▸ List.prefix_rfl)
  rw [FileSystem.openTruncated, FileSystem.openTruncated, openWith, openWith]
  rcases h.same.target_cases path true with ⟨r, ht, ht'⟩ | ⟨t, ht, ht', hname⟩ |
    ⟨l, slash, ht, ht', hapart⟩ | ⟨l, node, node', slash, ht, ht', hcounter⟩ <;> rw [ht, ht']
  · exact .refused r
  · cases t with
    | name place slash => exact absurd rfl (hname place slash)
    | root | here | above => exact .refused _
  · cases slash with
    | true => exact .refused _
    | false => exact hopen (h.place hapart _) (hne hapart)
  · cases slash with
    | true => exact .refused _
    | false =>
      obtain ⟨-, hlink⟩ := find_of_target_follow ht
      rcases hcounter.cases_of_ne (fun e he hl => hpath e he node (hl ▸ ht)) with
        ⟨rfl, hapart⟩ | ⟨_, _, rfl, rfl, -⟩
      · cases node' with
        | dir entries => exact .refused _
        | link target => exact absurd rfl (hlink target)
        | device => exact hopen h fun e _ => (Option.some_ne_none e).symm
        | file f =>
          dsimp only
          split
          · exact hopen h (hne hapart)
          · exact hopen (h.place hapart _) (hne hapart)
      · exact .refused _

theorem store (hpath : fs.Foreign o path true) (bytes : Bytes) :
    SameEnd (Rewritten handle o) (fs.store path bytes) (fs'.store path bytes) := by
  have hopen := h.openTruncated hpath
  rw [FileSystem.store, FileSystem.store, h.opened]
  revert hopen
  rcases fs.openTruncated path with r | ⟨opened, new⟩ <;>
    rcases fs'.openTruncated path with r' | ⟨opened', new'⟩ <;> intro hopen <;> cases hopen
  · exact .refused r
  · next hopened =>
    obtain ⟨hopened, hsame, helsewhere⟩ := hopened
    dsimp only at hopened hsame helsewhere ⊢
    rw [hsame]
    exact .done ((hopened.writeOpen helsewhere bytes).closeFrom h.openOn.lt)

/-! ### Removing -/

theorem removeFile (hpath : fs.Foreign o path) :
    SameEnd (Rewritten handle o) (fs.removeFile path) (fs'.removeFile path) := by
  rw [FileSystem.removeFile, FileSystem.removeFile]
  rcases h.same.target_cases path false with ⟨r, ht, ht'⟩ | ⟨t, ht, ht', hname⟩ |
    ⟨l, slash, ht, ht', -⟩ | ⟨l, node, node', slash, ht, ht', hcounter⟩ <;> rw [ht, ht']
  · exact .refused r
  · cases t with
    | name place slash => exact absurd rfl (hname place slash)
    | root | here | above => exact .refused _
  · exact .refused _
  · cases hcounter with
    | same hapart =>
      cases node with
      | dir entries => exact .refused _
      | file f | link target | device =>
        cases slash with
        | true => exact .refused _
        | false => exact .done (h.remove hapart)
    | file ho _ =>
      cases slash with
      | true => exact .refused _
      | false => exact absurd ht (hpath l ho _)
    | above _ _ _ _ => exact .refused _

/-- A directory that can be removed is empty, so the file is not below it. -/
theorem removeDir (path : String) :
    SameEnd (Rewritten handle o) (fs.removeDir path) (fs'.removeDir path) := by
  rw [FileSystem.removeDir, FileSystem.removeDir]
  rcases h.same.target_cases path false with ⟨r, ht, ht'⟩ | ⟨t, ht, ht', hname⟩ |
    ⟨l, slash, ht, ht', -⟩ | ⟨l, node, node', slash, ht, ht', hcounter⟩ <;> rw [ht, ht']
  · exact .refused r
  · cases t with
    | name place slash => exact absurd rfl (hname place slash)
    | root | here | above => exact .refused _
  · exact .refused _
  · cases hcounter with
    | same hapart =>
      cases node with
      | dir entries =>
        cases entries with
        | nil => exact .done (h.remove hapart)
        | cons e rest => exact .refused _
      | file f | link target | device => exact .refused _
    | file _ _ => exact .refused _
    | @above e entries entries' _ _ hentries hnames =>
      cases entries with
      | nil => exact absurd rfl hentries
      | cons first rest =>
        cases entries' with
        | nil => cases hnames
        | cons first' rest' => exact .refused _

/-! ### Renaming -/

/-- What is moved and what is replaced is elsewhere, or is a directory that is not empty. -/
theorem renameAt {m : Location} {node found found' : Node} (hl : ∀ e ∈ o, l.Apart e)
    (hm : isDirNode node = false → ∀ e ∈ o, m ≠ e) (hcounter : Counterpart o m found found') :
    SameEnd (Rewritten handle o) (fs.renameAt l node ⟨m, some found⟩)
      (fs'.renameAt l node ⟨m, some found'⟩) := by
  simp only [FileSystem.renameAt]
  split
  · exact .done h
  split
  · exact .refused _
  split
  · exact .refused _
  rcases hcounter with hapart | ⟨ho, -⟩ | @⟨e, entries, entries', -, -, hentries, hnames⟩
  · have hreplaces : SameEnd (Rewritten handle o)
        (Except.ok ((fs.remove m).relocate l m) : Except Refusal FileSystem)
        (.ok ((fs'.remove m).relocate l m)) :=
      .done ((h.remove hapart).relocate hl hapart)
    cases node with
    | dir _ =>
      cases found with
      | dir entries =>
        cases entries with
        | nil => exact hreplaces
        | cons _ _ => exact .refused _
      | file _ | link _ | device => exact .refused _
    | file _ | link _ | device =>
      cases found with
      | dir entries => cases entries <;> exact .refused _
      | file _ | link _ | device => exact hreplaces
  · cases node with
    | dir _ => exact .refused _
    | file _ | link _ | device => exact absurd rfl (hm rfl m ho)
  · cases entries with
    | nil => exact absurd rfl hentries
    | cons first rest =>
      cases entries' with
      | nil => cases hnames
      | cons first' rest' => cases node <;> exact .refused _

theorem renameAt_free {m : Location} (hl : ∀ e ∈ o, l.Apart e) (hm : ∀ e ∈ o, m.Apart e)
    (node : Node) :
    SameEnd (Rewritten handle o) (fs.renameAt l node ⟨m, none⟩) (fs'.renameAt l node ⟨m, none⟩) := by
  simp only [FileSystem.renameAt]
  split
  · exact .done h
  split
  · exact .refused _
  split
  · exact .refused _
  cases node <;> exact .done (h.relocate hl hm)

/-- Something is renamed that is not the file and has it not below, to a place that is not the
file's. -/
theorem rename (hsrc : fs.Spares o src) (hdst : fs.Foreign o dst) :
    SameEnd (Rewritten handle o) (fs.rename src dst) (fs'.rename src dst) := by
  rw [FileSystem.rename, FileSystem.rename]
  split
  · exact .refused _
  rcases h.same.target_cases src false with ⟨r, hs, hs'⟩ | ⟨t, hs, hs', hname⟩ |
    ⟨l, slash, hs, hs', -⟩ | ⟨l, node, node', slash, hs, hs', hcounter⟩
  · rw [hs, hs']
    exact .refused r
  · rw [hs, hs']
    cases t with
    | name place slash => exact absurd rfl (hname place slash)
    | root | here | above =>
      rcases h.same.target_cases dst false with ⟨r, ht, ht'⟩ | ⟨t', ht, ht', -⟩ |
        ⟨m, slash', ht, ht', -⟩ | ⟨m, _, _, slash', ht, ht', -⟩ <;> rw [ht, ht']
      · exact .refused r
      · cases t' <;> exact .refused _
      · exact .refused _
      · exact .refused _
  · rw [hs, hs']
    rcases h.same.target_cases dst false with ⟨r, ht, ht'⟩ | ⟨t', ht, ht', hname⟩ |
      ⟨m, slash', ht, ht', -⟩ | ⟨m, _, _, slash', ht, ht', -⟩ <;> rw [ht, ht']
    · exact .refused r
    · cases t' with
      | name place slash => exact absurd rfl (hname place slash)
      | root | here | above => exact .refused _
    · exact .refused _
    · exact .refused _
  · rcases h.same.target_cases dst false with ⟨r, ht, ht'⟩ | ⟨t', ht, ht', hname⟩ |
      ⟨m, slash', ht, ht', hfree⟩ | ⟨m, found, found', slash', ht, ht', hcounter'⟩ <;>
      rw [hs, hs', ht, ht']
    · exact .refused r
    · cases t' with
      | name place slash => exact absurd rfl (hname place slash)
      | root | here | above => exact .refused _
    all_goals
      dsimp only
      rw [hcounter.isDirNode_eq]
      by_cases hslash : (!isDirNode node && (slash || slash')) = true
      · rw [if_pos hslash, if_pos hslash]
        exact .refused _
      rw [if_neg hslash, if_neg hslash]
      -- What is moved is found, since a slash after it asks for a directory only.
      have hfind : fs.find src false = .ok (l, node) :=
        find_of_target hs fun hend => by simpa [hend] using hslash
      obtain ⟨rfl, hapart⟩ := hcounter.eq_of_not_above (hsrc l node hfind)
    · exact h.renameAt_free hapart hfree node'
    · refine h.renameAt hapart (fun hnodir e he hm => ?_) hcounter'
      subst hm
      cases slash' with
      | true => simp [hnodir] at hslash
      | false => exact hdst m he found ht

end Rewritten

/-- What was opened at its end is a file under its handle, or a device. -/
theorem rewritten_of_openAppending (h : fs.openAppending path = .ok (after, handle)) :
    Rewritten handle ((after.opened[handle]?).bind OpenFile.location) after after := by
  have hopen {mid : FileSystem} {there : Option Location}
      (hthere : ∀ e ∈ there, ∃ f, mid.get? e = some (.file f)) :
      Rewritten (mid.openAt there).2
        (((mid.openAt there).1.opened[(mid.openAt there).2]?).bind OpenFile.location)
        (mid.openAt there).1 (mid.openAt there).1 := by
    rw [FileSystem.openAt, List.getElem?_concat_length]
    refine OpenOn.rewritten ?_ hthere
    rw [OpenOn, List.getElem?_concat_length]
    rfl
  rw [openAppending, openWith] at h
  cases ht : fs.target path true with
  | error r => rw [ht] at h; cases h
  | ok t =>
    rw [ht] at h
    cases t with
    | root | here | above => cases h
    | name place slash =>
      obtain ⟨l, node⟩ := place
      obtain ⟨-, -, ⟨-, here, -, hleads⟩, hnode⟩ := target_eq_name_iff.mp ht
      cases slash with
      | true => cases h
      | false =>
        cases node with
        | none =>
          cases h
          obtain ⟨d, name, rfl, hdir⟩ := hleads.parent (Option.map_eq_none_iff.mpr hnode.symm)
          refine hopen fun e he => ?_
          cases he
          exact ⟨_, get?_place_in hdir _⟩
        | some node =>
          cases node with
          | dir entries => cases h
          | file f =>
            dsimp only [id] at h
            rw [if_pos rfl] at h
            cases h
            refine hopen fun e he => ?_
            cases he
            exact ⟨f, hnode.symm⟩
          | link target | device =>
            cases h
            exact hopen fun e he => by cases he

end FileSystem

end MonitoredCompile
