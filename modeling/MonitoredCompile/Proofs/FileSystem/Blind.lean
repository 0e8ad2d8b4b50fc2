/-
MonitoredCompile/Proofs/FileSystem/Blind.lean

Calls that are blind to a lone file.  What such a call does to a file system with the file
hidden is what it does to the file system as it is, with the file hidden after that.  Every
call is blind whose path misses the file; only of a call about a directory it is asked as well
that the file is not below this directory (`Aside`).
-/
import MonitoredCompile.Proofs.FileSystem.Misses
import MonitoredCompile.Proofs.FileSystem.Named

namespace MonitoredCompile.FileSystem

variable {fs after : FileSystem} {d l : Location} {x path : String} {follow : Bool}

/-! ### Links that are written -/

/-- No link below the node has this name in its target. -/
def Shuns (x : String) (node : Node) : Prop :=
  ∀ k target, node.entryAt k = some (.link target) → x ∉ Path.names target

theorem shuns_file (f : File) : Shuns x (.file f) := by
  intro k target hlink
  cases k <;> cases hlink

theorem shuns_emptyDir : Shuns x (.dir []) := by
  intro k target hlink
  cases k <;> cases hlink

theorem shuns_dir {entries : List (String × Node)} (h : ∀ e ∈ entries, Shuns x e.2) :
    Shuns x (.dir entries) := by
  intro k target hlink
  cases k with
  | nil => cases hlink
  | cons name k =>
    rw [Node.entryAt, Node.get?_dir_cons] at hlink
    cases hfind : Node.find? name entries with
    | none => rw [hfind] at hlink; cases hlink
    | some node =>
      rw [hfind] at hlink
      exact h _ (Node.mem_of_find? hfind) k target hlink

theorem shuns_link {text : String} (h : x ∉ Path.names text) : Shuns x (.link text) := by
  intro k target hlink
  cases k <;> cases hlink
  exact h

/-! ### Open files -/

theorem get?_without_below (hdir : fs.entryAt d = some .dir) {m : Location} (hm : d ++ [x] <+: m) :
    (fs.without (d ++ [x])).get? m = none := by
  obtain ⟨k, rfl⟩ := hm
  rw [List.append_assoc, List.singleton_append]
  exact Option.map_eq_none_iff.mp (entryAt_withNode_below hdir none)

namespace Lone

variable (h : fs.Lone d x)
include h

/-- Whatever there is but the file is not below it. -/
theorem off {node : Node} (hl : l ≠ d ++ [x]) (hget : fs.get? l = some node) :
    ¬ d ++ [x] <+: l := by
  rintro ⟨k, rfl⟩
  cases k with
  | nil => exact hl (List.append_nil _)
  | cons name k =>
    exact (h.plain _ (dir_of_below (entryAt_of_get? hget))).ne_dir rfl

/-- A write to another file. -/
theorem modifyFile {o : Option Location} (ho : o ≠ some (d ++ [x])) (f : Bytes → Bytes) :
    (fs.modifyFile o f).without (d ++ [x]) = (fs.without (d ++ [x])).modifyFile o f ∧
      (fs.modifyFile o f).Lone d x := by
  cases o with
  | none => exact ⟨rfl, h⟩
  | some l =>
    have hl : l ≠ d ++ [x] := fun heq => ho (congrArg some heq)
    rw [FileSystem.modifyFile, FileSystem.modifyFile]
    cases hget : fs.get? l with
    | none =>
      have hnone : (fs.without (d ++ [x])).get? l = none := by
        by_cases hbelow : d ++ [x] <+: l
        · exact get?_without_below h.dir hbelow
        · exact (get?_without_eq_none hbelow).mpr hget
      rw [hnone]
      exact ⟨rfl, h⟩
    | some node =>
      rcases h.get?_cases (h.off hl hget) hget with
        ⟨hget', hapart, -⟩ | ⟨entries, entries', rfl, hget', -⟩
      · rw [hget']
        cases node with
        | file file =>
          exact ⟨without_place hapart _, h.place hapart (shuns_file _)⟩
        | dir _ | link _ | device => exact ⟨rfl, h⟩
      · rw [hget']
        exact ⟨rfl, h⟩

theorem openAt {o : Option Location} (ho : o ≠ some (d ++ [x])) : (fs.openAt o).1.Lone d x := by
  refine ⟨h.isName, h.dir, h.plain, h.links, h.cwd, fun f hf => ?_⟩
  rcases List.mem_append.mp hf with hf | hf
  · exact h.closed f hf
  · rw [List.mem_singleton.mp hf]
    exact ho

theorem closeFrom (n : Nat) : (fs.closeFrom n).Lone d x :=
  ⟨h.isName, h.dir, h.plain, h.links, h.cwd, fun f hf => h.closed f (List.mem_of_mem_take hf)⟩

theorem writeOpen (handle : Nat) (bytes : Bytes) :
    (fs.writeOpen handle bytes).without (d ++ [x])
        = (fs.without (d ++ [x])).writeOpen handle bytes ∧
      (fs.writeOpen handle bytes).Lone d x := by
  rw [FileSystem.writeOpen, FileSystem.writeOpen,
    show (fs.without (d ++ [x])).opened = fs.opened from rfl]
  cases hopen : fs.opened[handle]? with
  | none => exact ⟨rfl, h⟩
  | some o =>
    have ho : o.location ≠ some (d ++ [x]) := h.closed o (List.mem_of_getElem? hopen)
    obtain ⟨hsame, hlone⟩ := h.modifyFile ho (splice · o.offset bytes)
    refine ⟨?_, hlone.isName, hlone.dir, hlone.plain, hlone.links, hlone.cwd, fun f hf => ?_⟩
    · dsimp only
      rw [← hsame]
      rfl
    · rcases List.mem_or_eq_of_mem_set hf with hf | rfl
      · exact h.closed f hf
      · exact ho

theorem appendOpen (handle : Nat) (bytes : Bytes) :
    (fs.appendOpen handle bytes).without (d ++ [x])
        = (fs.without (d ++ [x])).appendOpen handle bytes ∧
      (fs.appendOpen handle bytes).Lone d x := by
  rw [FileSystem.appendOpen, FileSystem.appendOpen,
    show (fs.without (d ++ [x])).opened = fs.opened from rfl]
  cases hopen : fs.opened[handle]? with
  | none => exact ⟨rfl, h⟩
  | some o => exact h.modifyFile (h.closed o (List.mem_of_getElem? hopen)) (· ++ bytes)

/-- Its own name leads to the file and to nothing else. -/
theorem location_of_find {node : Node} (hfind : fs.find x = .ok (l, node)) : l = d ++ [x] := by
  have hpiece : Path.IsPiece x := ⟨h.isName.ne_empty, h.isName.no_slash⟩
  obtain ⟨⟨-, here, hhere, hleads⟩, -⟩ := find_eq_ok_iff.mp hfind
  rw [start, Path.not_isAbsolute_piece hpiece, h.cwd] at hhere
  cases hhere
  have hsteps : steps x = [x] := by
    have hslash := Path.endsInSlash_append_piece "" hpiece
    rw [String.empty_append] at hslash
    rw [steps, hslash, Path.names_piece hpiece]
    rfl
  rw [hsteps] at hleads
  exact hleads.of_single h.isName fun target hlink => absurd rfl ((h.plain _ hlink).ne_link target)

/-- What is added to an open file is not read under this name. -/
theorem read_appendOpen (handle : Nat) (bytes : Bytes) :
    (fs.appendOpen handle bytes).read x = fs.read x := by
  refine appendOpen_cases (P := fun after => after.read x = fs.read x) fs handle bytes rfl
    fun l f hopened hget => ?_
  refine read_overwrite hget _ fun f hfind => ?_
  obtain ⟨o, ho, hl⟩ := Option.bind_eq_some_iff.mp hopened
  exact h.closed o (List.mem_of_getElem? ho) (hl.trans (congrArg some (h.location_of_find hfind)))

end Lone

/-! ### Blind calls -/

/-- It is the same whether the file is hidden before the call or after it, and the call leaves
the file lone. -/
structure BlindCall (d : Location) (x : String) (fs : FileSystem)
    (f : FileSystem → Except Refusal FileSystem) : Prop where
  hidden : f (fs.without (d ++ [x])) = (f fs).map (·.without (d ++ [x]))
  lone : ∀ {after}, f fs = .ok after → after.Lone d x

namespace BlindCall

variable {f : FileSystem → Except Refusal FileSystem}

theorem refused {r : Refusal} (hf : f fs = .error r)
    (hf' : f (fs.without (d ++ [x])) = .error r) : BlindCall d x fs f :=
  ⟨by rw [hf, hf']; rfl, fun hok => by cases hf.symm.trans hok⟩

theorem done (hf : f fs = .ok after)
    (hf' : f (fs.without (d ++ [x])) = .ok (after.without (d ++ [x])))
    (hlone : after.Lone d x) : BlindCall d x fs f :=
  ⟨by rw [hf, hf']; rfl, fun hok => Except.ok.inj (hf.symm.trans hok) ▸ hlone⟩

theorem congr {g : FileSystem → Except Refusal FileSystem} (hf : f fs = g fs)
    (hf' : f (fs.without (d ++ [x])) = g (fs.without (d ++ [x]))) (hg : BlindCall d x fs g) :
    BlindCall d x fs f :=
  ⟨by rw [hf, hf']; exact hg.hidden, fun hok => hg.lone (hf ▸ hok)⟩

end BlindCall

/-- The file is not below what the path names, if that is a directory. -/
def Aside (fs : FileSystem) (d : Location) (path : String) : Prop :=
  ∀ l entries, fs.find path false = .ok (l, .dir entries) → ¬ l <+: d

/-- So it is in files that are all there. -/
theorem Aside.of_extends (h : after.Aside d path) (hext : Extends fs after)
    (hstart : SameStarts fs after path) : fs.Aside d path := by
  intro l entries hfind
  obtain ⟨node, hfind', hentry⟩ := hext.find hstart hfind
  obtain ⟨entries', rfl⟩ := Node.entry_eq_dir.mp hentry
  exact h l entries' hfind'

theorem Aside.target (h : fs.Aside d path) {entries : List (String × Node)} {slash : Bool}
    (ht : fs.target path = .ok (.name ⟨l, some (.dir entries)⟩ slash)) : ¬ l <+: d :=
  h l entries (find_of_target ht fun _ => rfl)

/-! ### Questions -/

section

variable (h : fs.Lone d x)
include h

/-- Whether the file is below a directory does not depend on whether it is hidden. -/
theorem Misses.aside_iff (hmiss : fs.Misses (d ++ [x]) path false) :
    (fs.without (d ++ [x])).Aside d path ↔ fs.Aside d path := by
  rcases hmiss.find_cases h with
    ⟨r, hf, hf'⟩ | ⟨l, node, hf, hf', -, hnode⟩ | ⟨l, entries, entries', hf, hf', -⟩
  · simp [Aside, hf, hf']
  · simp only [Aside, hf, hf']
  · simp [Aside, hf, hf']

theorem Misses.isLink (hmiss : fs.Misses (d ++ [x]) path false) :
    (fs.without (d ++ [x])).isLink path = fs.isLink path := by
  rcases hmiss.find_cases h with ⟨r, hf, hf'⟩ | ⟨l, node, hf, hf', -⟩ | ⟨l, _, _, hf, hf', -⟩ <;>
    rw [FileSystem.isLink, FileSystem.isLink, hf, hf']

theorem Misses.readLink (hmiss : fs.Misses (d ++ [x]) path false) :
    (fs.without (d ++ [x])).readLink path = fs.readLink path := by
  rcases hmiss.find_cases h with ⟨r, hf, hf'⟩ | ⟨l, node, hf, hf', -⟩ | ⟨l, _, _, hf, hf', -⟩ <;>
    rw [FileSystem.readLink, FileSystem.readLink, hf, hf']

section

variable (hmiss : fs.Misses (d ++ [x]) path true)
include hmiss

theorem Misses.isDir : (fs.without (d ++ [x])).isDir path = fs.isDir path := by
  rcases hmiss.find_cases h with ⟨r, hf, hf'⟩ | ⟨l, node, hf, hf', -⟩ | ⟨l, _, _, hf, hf', -⟩ <;>
    rw [FileSystem.isDir, FileSystem.isDir, hf, hf']

theorem Misses.pathExists : (fs.without (d ++ [x])).pathExists path = fs.pathExists path := by
  rcases hmiss.find_cases h with ⟨r, hf, hf'⟩ | ⟨l, node, hf, hf', -⟩ | ⟨l, _, _, hf, hf', -⟩ <;>
    rw [FileSystem.pathExists, FileSystem.pathExists, hf, hf']

theorem Misses.read : (fs.without (d ++ [x])).read path = fs.read path := by
  rcases hmiss.find_cases h with ⟨r, hf, hf'⟩ | ⟨l, node, hf, hf', -⟩ | ⟨l, _, _, hf, hf', -⟩ <;>
    rw [FileSystem.read, FileSystem.read, hf, hf']

end

/-! ### Changes -/

theorem Misses.create (hmiss : fs.Misses (d ++ [x]) path false) {node : Node}
    (hnode : Shuns x node) : BlindCall d x fs (·.create path node) := by
  rcases hmiss.target_cases h with ⟨r, ht, ht'⟩ | ⟨t, ht, ht', hname⟩ | ⟨l, slash, ht, ht', hapart⟩ |
    ⟨l, _, slash, ht, ht', -⟩ | ⟨l, _, _, slash, ht, ht', -⟩
  · exact .refused (by rw [FileSystem.create, ht]) (by rw [FileSystem.create, ht'])
  · cases t with
    | name place slash => exact absurd rfl (hname place slash)
    | root | here | above =>
      exact .refused (by rw [FileSystem.create, ht]; rfl) (by rw [FileSystem.create, ht']; rfl)
  · refine .done (by rw [FileSystem.create, ht]) ?_ (h.place hapart hnode)
    rw [FileSystem.create, ht', without_place hapart]
  · exact .refused (by rw [FileSystem.create, ht]; rfl) (by rw [FileSystem.create, ht']; rfl)
  · exact .refused (by rw [FileSystem.create, ht]; rfl) (by rw [FileSystem.create, ht']; rfl)

theorem Misses.makeDir (hmiss : fs.Misses (d ++ [x]) path false) :
    BlindCall d x fs (·.makeDir path) :=
  hmiss.create h shuns_emptyDir

theorem Misses.makeLink (hmiss : fs.Misses (d ++ [x]) path false) {text : String}
    (htext : x ∉ Path.names text) : BlindCall d x fs (·.makeLink path text) := by
  have hcreate := hmiss.create h (shuns_link htext)
  by_cases hnul : Path.hasNul path = true
  · exact .refused (by rw [FileSystem.makeLink, if_pos hnul]) (by rw [FileSystem.makeLink, if_pos hnul])
  cases hflaw : flaw? text with
  | some r =>
    exact .refused (by rw [FileSystem.makeLink, if_neg hnul, hflaw])
      (by rw [FileSystem.makeLink, if_neg hnul, hflaw])
  | none =>
    have hplain {fs : FileSystem} (hfs : ∀ l, fs.target path ≠ .ok (.name ⟨l, none⟩ true)) :
        fs.makeLink path text = fs.create path (.link text) := by
      rw [FileSystem.makeLink, if_neg hnul, hflaw]
      dsimp only
      split
      · next l ht => exact absurd ht (hfs l)
      · rfl
    have hother (hfs : ∀ l, fs.target path ≠ .ok (.name ⟨l, none⟩ true))
        (hfs' : ∀ l, (fs.without (d ++ [x])).target path ≠ .ok (.name ⟨l, none⟩ true)) :
        BlindCall d x fs (·.makeLink path text) :=
      .congr (hplain hfs) (hplain hfs') hcreate
    rcases hmiss.target_cases h with ⟨r, ht, ht'⟩ | ⟨t, ht, ht', hname⟩ | ⟨l, slash, ht, ht', -⟩ |
      ⟨l, _, slash, ht, ht', -⟩ | ⟨l, _, _, slash, ht, ht', -⟩
    · exact hother (by simp [ht]) (by simp [ht'])
    · exact hother (fun l heq => hname _ _ (Except.ok.inj (ht.symm.trans heq)))
        fun l heq => hname _ _ (Except.ok.inj (ht'.symm.trans heq))
    · cases slash with
      | false => exact hother (by simp [ht]) (by simp [ht'])
      | true =>
        exact .refused (by rw [FileSystem.makeLink, if_neg hnul, hflaw, ht]; rfl)
          (by rw [FileSystem.makeLink, if_neg hnul, hflaw, ht']; rfl)
    · exact hother (by simp [ht]) (by simp [ht'])
    · exact hother (by simp [ht]) (by simp [ht'])

/-- The same file is opened, and if it was made, then in the same place. -/
theorem Misses.openTruncated_cases (hmiss : fs.Misses (d ++ [x]) path true) :
    (∃ r, fs.openTruncated path = .error r ∧
      (fs.without (d ++ [x])).openTruncated path = .error r) ∨
    ∃ (mid : FileSystem) (o : Option Location), fs.openTruncated path = .ok (mid.openAt o) ∧
      (fs.without (d ++ [x])).openTruncated path = .ok ((mid.without (d ++ [x])).openAt o) ∧
      mid.Lone d x ∧ o ≠ some (d ++ [x]) := by
  have hne {l : Location} (hapart : l.Apart (d ++ [x])) :
      (some l : Option Location) ≠ some (d ++ [x]) :=
    fun heq => hapart.not_above (Option.some.inj heq ▸ List.prefix_rfl)
  unfold FileSystem.openTruncated openWith
  rcases hmiss.target_cases h with ⟨r, ht, ht'⟩ | ⟨t, ht, ht', hname⟩ | ⟨l, slash, ht, ht', hapart⟩ |
    ⟨l, node, slash, ht, ht', hapart, hnode⟩ | ⟨l, _, _, slash, ht, ht', -⟩ <;> rw [ht, ht']
  · exact .inl ⟨r, rfl, rfl⟩
  · cases t with
    | name place slash => exact absurd rfl (hname place slash)
    | root | here | above => exact .inl ⟨_, rfl, rfl⟩
  · cases slash with
    | true => exact .inl ⟨_, rfl, rfl⟩
    | false =>
      refine .inr ⟨_, some l, rfl, ?_, h.place hapart (shuns_file _), hne hapart⟩
      rw [without_place hapart]
  · cases slash with
    | true => exact .inl ⟨_, rfl, rfl⟩
    | false =>
      cases node with
      | dir entries => exact absurd rfl hnode
      | link target | device => exact .inr ⟨fs, none, rfl, rfl, h, nofun⟩
      | file f =>
        dsimp only
        by_cases hempty : [] = f.bytes
        · rw [if_pos hempty, if_pos hempty]
          exact .inr ⟨fs, some l, rfl, rfl, h, hne hapart⟩
        · rw [if_neg hempty, if_neg hempty, ← without_place hapart]
          exact .inr ⟨_, some l, rfl, rfl, h.place hapart (shuns_file _), hne hapart⟩
  · cases slash <;> exact .inl ⟨_, rfl, rfl⟩

theorem Misses.store (hmiss : fs.Misses (d ++ [x]) path true) (bytes : Bytes) :
    BlindCall d x fs (·.store path bytes) := by
  rcases hmiss.openTruncated_cases h with ⟨r, hopen, hopen'⟩ | ⟨mid, o, hopen, hopen', hmid, ho⟩
  · exact .refused (by rw [FileSystem.store, hopen]) (by rw [FileSystem.store, hopen'])
  · obtain ⟨hwrite, hwritten⟩ := (hmid.openAt ho).writeOpen mid.opened.length bytes
    refine .done (by rw [FileSystem.store, hopen]; rfl) ?_ (hwritten.closeFrom fs.opened.length)
    rw [FileSystem.store, hopen']
    exact congrArg (fun fs' => Except.ok (fs'.closeFrom fs.opened.length)) hwrite.symm

theorem Misses.removeFile (hmiss : fs.Misses (d ++ [x]) path false) :
    BlindCall d x fs (·.removeFile path) := by
  rcases hmiss.target_cases h with ⟨r, ht, ht'⟩ | ⟨t, ht, ht', hname⟩ | ⟨l, slash, ht, ht', -⟩ |
    ⟨l, node, slash, ht, ht', hapart, hnode⟩ | ⟨l, _, _, slash, ht, ht', -⟩
  · exact .refused (by rw [FileSystem.removeFile, ht]) (by rw [FileSystem.removeFile, ht'])
  · cases t with
    | name place slash => exact absurd rfl (hname place slash)
    | root | here | above =>
      exact .refused (by rw [FileSystem.removeFile, ht]; rfl)
        (by rw [FileSystem.removeFile, ht']; rfl)
  · exact .refused (by rw [FileSystem.removeFile, ht]; rfl)
      (by rw [FileSystem.removeFile, ht']; rfl)
  · cases node with
    | dir entries => exact absurd rfl hnode
    | file f | link target | device =>
      cases slash with
      | true =>
        exact .refused (by rw [FileSystem.removeFile, ht]; rfl)
          (by rw [FileSystem.removeFile, ht']; rfl)
      | false =>
        refine .done (by rw [FileSystem.removeFile, ht]) ?_ (h.remove hapart)
        rw [FileSystem.removeFile, ht', without_remove hapart]
  · exact .refused (by rw [FileSystem.removeFile, ht]; rfl)
      (by rw [FileSystem.removeFile, ht']; rfl)

theorem Misses.removeDir (hmiss : fs.Misses (d ++ [x]) path false) (haside : fs.Aside d path) :
    BlindCall d x fs (·.removeDir path) := by
  rcases hmiss.target_cases h with ⟨r, ht, ht'⟩ | ⟨t, ht, ht', hname⟩ | ⟨l, slash, ht, ht', -⟩ |
    ⟨l, node, slash, ht, ht', -, hnode⟩ | ⟨l, entries, entries', slash, ht, ht', hsame⟩
  · exact .refused (by rw [FileSystem.removeDir, ht]) (by rw [FileSystem.removeDir, ht'])
  · cases t with
    | name place slash => exact absurd rfl (hname place slash)
    | root | here | above =>
      exact .refused (by rw [FileSystem.removeDir, ht]; rfl)
        (by rw [FileSystem.removeDir, ht']; rfl)
  · exact .refused (by rw [FileSystem.removeDir, ht]; rfl)
      (by rw [FileSystem.removeDir, ht']; rfl)
  · cases node with
    | dir entries => exact absurd rfl hnode
    | file f | link target | device =>
      exact .refused (by rw [FileSystem.removeDir, ht]; rfl)
        (by rw [FileSystem.removeDir, ht']; rfl)
  · obtain ⟨hapart, rfl⟩ := hsame (haside.target ht)
    cases entries' with
    | cons e rest =>
      exact .refused (by rw [FileSystem.removeDir, ht]; rfl)
        (by rw [FileSystem.removeDir, ht']; rfl)
    | nil =>
      refine .done (by rw [FileSystem.removeDir, ht]) ?_ (h.remove hapart)
      rw [FileSystem.removeDir, ht', without_remove hapart]

theorem Lone.renameAt {m : Location} (hl : l.Apart (d ++ [x])) (hm : m.Apart (d ++ [x]))
    (node : Node) (found : Option Node) :
    BlindCall d x fs (·.renameAt l node ⟨m, found⟩) := by
  have hmoves : BlindCall d x fs (fun fs => .ok (fs.relocate l m)) :=
    .done rfl (congrArg Except.ok (without_relocate hl hm).symm) (h.relocate hl hm)
  have hreplaces : BlindCall d x fs (fun fs => .ok ((fs.remove m).relocate l m)) := by
    refine .done rfl (congrArg Except.ok ?_) ((h.remove hm).relocate hl hm)
    rw [without_relocate hl hm, without_remove hm]
  have hrefuses (e : Errno) : BlindCall d x fs (fun _ => refuse e) := .refused rfl rfl
  simp only [FileSystem.renameAt]
  by_cases hsame : l = m
  · simp only [hsame, if_true]
    exact .done rfl rfl h
  by_cases hin : l.isPrefixOf m = true
  · simp only [hsame, hin, if_true, if_false]
    exact hrefuses .invalid
  by_cases hin' : m.isPrefixOf l = true
  · simp only [hsame, hin, hin', if_true, if_false, Bool.false_eq_true]
    exact hrefuses .notEmpty
  simp only [hsame, hin, hin', if_false, Bool.false_eq_true]
  cases found with
  | none => exact hmoves
  | some there =>
    cases node with
    | dir _ =>
      cases there with
      | dir entries =>
        cases entries with
        | nil => exact hreplaces
        | cons _ _ => exact hrefuses _
      | file _ | link _ | device => exact hrefuses _
    | file _ | link _ | device =>
      cases there with
      | dir entries => cases entries <;> exact hrefuses .isDirectory
      | file _ | link _ | device => exact hreplaces

/-- What the last name of a path means to a call is the same, unless the file is below it. -/
theorem Misses.target_eq (hmiss : fs.Misses (d ++ [x]) path false) (haside : fs.Aside d path) :
    (fs.without (d ++ [x])).target path = fs.target path ∧
      ∀ place slash, fs.target path = .ok (.name place slash) → place.location.Apart (d ++ [x]) := by
  rcases hmiss.target_cases h with ⟨r, ht, ht'⟩ | ⟨t, ht, ht', hname⟩ | ⟨l, slash, ht, ht', hapart⟩ |
    ⟨l, node, slash, ht, ht', hapart, -⟩ | ⟨l, entries, entries', slash, ht, ht', hsame⟩ <;> rw [ht]
  · exact ⟨ht', nofun⟩
  · exact ⟨ht', fun place slash heq => absurd (Except.ok.inj heq) (hname place slash)⟩
  · exact ⟨ht', fun place slash heq => by cases heq; exact hapart⟩
  · exact ⟨ht', fun place slash heq => by cases heq; exact hapart⟩
  · obtain ⟨hapart, rfl⟩ := hsame (haside.target ht)
    exact ⟨ht', fun place slash heq => by cases heq; exact hapart⟩

theorem Misses.rename {src dst : String} (hsrc : fs.Misses (d ++ [x]) src false)
    (hdst : fs.Misses (d ++ [x]) dst false) (hasideSrc : fs.Aside d src)
    (hasideDst : fs.Aside d dst) : BlindCall d x fs (·.rename src dst) := by
  obtain ⟨hsame, hapart⟩ := hsrc.target_eq h hasideSrc
  obtain ⟨hsame', hapart'⟩ := hdst.target_eq h hasideDst
  by_cases hnul : (Path.hasNul src || Path.hasNul dst) = true
  · exact .refused (by rw [FileSystem.rename, if_pos hnul]) (by rw [FileSystem.rename, if_pos hnul])
  rcases hs : fs.target src with r | source
  · exact .refused (by rw [FileSystem.rename, if_neg hnul, hs])
      (by rw [FileSystem.rename, if_neg hnul, hsame, hs])
  rcases ht : fs.target dst with r | dest
  · exact .refused (by rw [FileSystem.rename, if_neg hnul, hs, ht])
      (by rw [FileSystem.rename, if_neg hnul, hsame, hsame', hs, ht])
  have hopen {f : FileSystem → Except Refusal FileSystem} (hf : BlindCall d x fs f)
      (hboth : ∀ fs' : FileSystem, fs'.target src = .ok source → fs'.target dst = .ok dest →
        fs'.rename src dst = f fs') : BlindCall d x fs (·.rename src dst) :=
    .congr (hboth fs hs ht) (hboth _ (hsame.trans hs) (hsame'.trans ht)) hf
  have hrefuses (e : Errno) : BlindCall d x fs (fun _ => refuse e) := .refused rfl rfl
  cases source with
  | root | here | above =>
    refine hopen (hrefuses .busy) fun fs' hs ht => ?_
    rw [FileSystem.rename, if_neg hnul, hs, ht]
    cases dest <;> rfl
  | name place slash =>
    obtain ⟨l, found⟩ := place
    cases dest with
    | root | here | above =>
      refine hopen (hrefuses .busy) fun fs' hs ht => ?_
      rw [FileSystem.rename, if_neg hnul, hs, ht]
    | name dest destSlash =>
      cases found with
      | none =>
        refine hopen (hrefuses .noEntry) fun fs' hs ht => ?_
        rw [FileSystem.rename, if_neg hnul, hs, ht]
      | some node =>
        by_cases hslash : (!isDirNode node && (slash || destSlash)) = true
        · refine hopen (hrefuses .notDirectory) fun fs' hs ht => ?_
          rw [FileSystem.rename, if_neg hnul, hs, ht]
          simp only [hslash, if_true]
        · refine hopen (h.renameAt (hapart _ _ hs) (hapart' _ _ ht) node dest.node)
            fun fs' hs ht => ?_
          rw [FileSystem.rename, if_neg hnul, hs, ht]
          simp only [hslash, if_false, Bool.false_eq_true]

end

end MonitoredCompile.FileSystem
